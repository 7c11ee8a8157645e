import CoopScript.Library.Io

/-! What the functions of the library do when they are called and when they are resumed. -/

namespace CoopScript

namespace Builtin

open Arguments

/-- A function that runs to completion. -/
def native (f : List Value → Except ScriptError (List Value)) (args : List Value) :
    WorldM Action := do
  return .ret (← raising (f args))

def typeOf (args : List Value) : Except ScriptError (List Value) :=
  reading "type" args do
    let v ← nextAny
    return [.str v.kind.name]

/-- Raises its argument as an error. -/
def raise (args : List Value) : WorldM Action := do
  let v := args.headD .nil
  let text := v.asText?.getD ((← getThe World).defaultText v)
  throw (.script (.raised text))

def substituteOn (s : Substitution) : Action :=
  match s.advance with
  | .finished results => .ret results
  | .lookup table key s => .index (.table table) key (.substitution s)
  | .call function captures s => .call (.function function) captures 0 (.substitution s)

def formatOn (s : Formatting) : WorldM Action := do
  match ← raising s.advance with
  | .finished text => return .ret [.str text]
  | .textOf value s => return .textOf value (.formatting s)

def gmatchOf (args : List Value) : WorldM Action := do
  let cursor ← raising (Strings.matches? args)
  let (f, w) := (← getThe World).addFunction (.matches cursor)
  set w
  return .ret [.function f]

/-- A call of the function with arguments. -/
def invoke (b : Builtin) (args : List Value) : WorldM Action :=
  match b with
  | pause => return .suspend .yield (.arguments args)
  | tostring => do
    let v ← raising (reading "tostring" args nextAny)
    return .textOf v .unit
  | typeName => native typeOf args
  | error => raise args
  | format => do formatOn (← raising (Formatting.start args))
  | gsub => do return substituteOn (← raising (Substitution.start args))
  | byte => native Strings.byte args
  | char => native Strings.char args
  | find => native Strings.find args
  | gmatch => gmatchOf args
  | len => native Strings.len args
  | lower => native Strings.lower args
  | firstMatch => native Strings.firstMatch args
  | rep => native Strings.rep args
  | reverse => native Strings.reverse args
  | sub => native Strings.sub args
  | upper => native Strings.upper args
  | fileWrite => Files.write args
  | fileRead => Files.read args
  | fileFlush => Files.flush args
  | fileClose => Files.close args
  | fileLines => Files.lines args
  | fileSeek => Files.seek args
  | fileSetvbuf => Files.setvbuf args
  | fileTostring => Files.text args
  | ioWrite => Io.forward .output IoState.write
  | ioRead => Io.forward .input IoState.read
  | ioFlush => Io.forward .output IoState.flush
  | ioClose => Io.close args
  | ioOpen => Io.openNamed args
  | ioInput => Io.select .input args
  | ioOutput => Io.select .output args
  | ioType => Io.kind args

/-- Goes on from a saved state with what the window holds, which after a call are its
results. -/
def resume (b : Builtin) (state : Saved) (held : List Value) : WorldM Action :=
  match b, state with
  | pause, .arguments values => return .ret values
  | tostring, .unit =>
    match (held.headD .nil).asText? with
    | some text => return .ret [.str text]
    | none => throw (.script .tostringResult)
  | format, .formatting s => do formatOn (← raising (s.collect (held.headD .nil)))
  | gsub, .substitution s => do return substituteOn (← raising (s.collect (held.headD .nil)))
  | fileWrite, .writing w => Files.writeOn w
  | fileRead, .reading r => Files.readItems r.file r.results r.collected r.formats
  | fileSeek, .control file c | fileSetvbuf, .control file c => Files.controlOn file c
  | fileFlush, .file u => Files.finishOn false u
  | fileClose, .file u => Files.finishOn true u
  | ioWrite, .unit | ioRead, .unit | ioFlush, .unit | ioClose, .unit => return .done
  | b, _ =>
    if b.isResumable then throw (.protocol (.stateMismatch b.name))
    else throw (.protocol (.notSuspendable b.name))

end Builtin

end CoopScript
