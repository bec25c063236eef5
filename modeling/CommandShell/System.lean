import CommandShell.PathSearch
import CommandShell.RawPath
import CommandShell.Source
import CommandShell.Table

/-! # The system around a shell

A shell asks the system it runs on about paths and hands it programs to run. The type `σ` is the
state of that system, which running programs and reading the standard input can change.
-/

namespace CommandShell

inductive SystemError where
  | permissionDenied
  | notFound
  | other (reason : String)
deriving DecidableEq, Repr

def SystemError.message : SystemError → String
  | .permissionDenied => "permission denied"
  | .notFound => "entity not found"
  | .other reason => reason

structure Launch where
  program : String
  arguments : List String
  environment : Table String
  directory : RawPath

inductive Ending where
  | exited (code : Nat)
  | killed (signal : Nat)
deriving DecidableEq, Repr

inductive Channel where
  | output
  | diagnostics
deriving DecidableEq, Repr

structure Finished where
  ending : Ending
  written : List (Channel × List UInt8) := []

/-- The contents of a file. Reading may fail at their end. -/
structure Contents where
  bytes : List UInt8
  failure : Option String := none

/-- What a shell asks for. Paths that are not absolute start at the given directory. -/
structure System (σ : Type) where
  access : (world : σ) → (directory : RawPath) → (path : String) → Access
  canonical? : (world : σ) → (directory path : RawPath) → Option RawPath
  isDirectory : (world : σ) → (directory path : RawPath) → Bool
  canEnter : (world : σ) → (path : RawPath) → Bool
  contents? : (world : σ) → (directory : RawPath) → (path : String) → Option Contents
  spawn : (world : σ) → Launch → Except SystemError Finished × σ
  input : (world : σ) → Source × σ

end CommandShell
