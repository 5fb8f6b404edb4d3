/-
**The executable.**

The only module that talks to the world: it reads the arguments, the environment, files and what is
typed, and writes what the program answers.  A prompt is answered line by line.
-/

import Reckon.CommandLine.Program

set_option autoImplicit false
set_option relaxedAutoImplicit false

namespace Reckon

def Written.write : Written → IO Unit
  | .out s => do
      let channel ← IO.getStdout
      channel.putStr s
      channel.flush
  | .err s => do
      let channel ← IO.getStderr
      channel.putStr s
      channel.flush

/-- Writes a whole report and yields its exit status. -/
def Report.write (r : Report) : IO UInt32 := do
  r.output.forM Written.write
  return r.status.toUInt32

/-- The number of an error of the operating system, which may be handed on as its opposite. -/
def errorNumber (code : UInt32) : Nat := min code.toNat (0 - code).toNat

def Fault.ofError (e : IO.Error) : Fault :=
  match e with
  | .noFileOrDirectory .. => .notFound
  | .permissionDenied .. => .permissionDenied
  | .inappropriateType _ code _ => if errorNumber code = 20 then .notDirectory else .isDirectory
  | .invalidArgument _ code _ =>
      if errorNumber code = 36 then .nameTooLong else .other (toString e)
  | _ => .other (toString e)

/-- Looks a file up. -/
def File.read (name : String) : IO File := do
  match ← (IO.FS.readBinFile name).toBaseIO with
  | .ok bytes => return .content bytes.toList
  | .error e =>
      match Fault.ofError e with
      | .isDirectory => return .unreadable .isDirectory
      | fault => return .closed fault

/-- Reads one line that is typed; `typed` holds its bytes so far, the last one first. -/
partial def Line.read (channel : IO.FS.Stream) (typed : List UInt8) : IO (Option Line) := do
  match (← channel.read 1).toList with
  | [] => return if typed.isEmpty then none else some ⟨typed.reverse, false⟩
  | b :: _ =>
      if b = Line.feed then return some ⟨typed.reverse, true⟩
      else Line.read channel (b :: typed)

/-- Answers at the prompt until the input ends. -/
partial def Interactive.loop (separator : Separator) (prompt : String) : IO UInt32 := do
  Written.write (.out prompt)
  match ← Line.read (← IO.getStdin) [] with
  | none => Interactive.farewell.write
  | some line =>
      match line.typed? with
      | none => Interactive.collapse.write
      | some text =>
          (Interactive.answer Arithmetic.float separator text).write
          Interactive.loop separator prompt

def Request.perform (r : Request) : IO UInt32 := do
  match r with
  | .invocation ⟨c, .batch name⟩ =>
      let file ← File.read name
      (Program.invoke Arithmetic.float (fun _ => file) [] ⟨c, .batch name⟩).write
  | .invocation ⟨c, .interactive prompt⟩ =>
      match Separator.ofChar c with
      | none => (Program.refused c).write
      | some separator => Interactive.loop separator prompt
  | other => (Program.respond Arithmetic.float (fun _ => .closed .notFound) [] other).write

end Reckon

def main (words : List String) : IO UInt32 := do
  let setting? ← IO.getEnv Reckon.Program.separatorVariable
  (Reckon.Request.ofArguments words setting?).perform
