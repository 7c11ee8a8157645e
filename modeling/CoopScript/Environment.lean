import CoopScript.Library.Builtins

/-! The environment of scripts: a table that holds the functions of the library. -/

namespace CoopScript

namespace World

def newFunction (c : Callable) : StateM World FunctionId := modifyGet fun w => w.addFunction c

def newTable (entries : List (String × Value)) : StateM World TableId :=
  modifyGet fun w => w.addTable (entries.foldl (fun t (name, v) => t.setText name v) {})

def newFile (h : Handle) : StateM World UserdataId := modifyGet fun w => w.addFile h

/-- A table entry that holds a function of the library. -/
def entry (name : String) (b : Builtin) : StateM World (String × Value) := do
  return (name, .function (← newFunction (.builtin b)))

def entries (list : List (String × Builtin)) : StateM World (List (String × Value)) :=
  list.mapM fun (name, b) => entry name b

/-- Sets the handles up: their methods, and the three standard ones. -/
def installFiles (input output error : Handle) : StateM World Unit := do
  let write ← newFunction (.builtin .fileWrite)
  let read ← newFunction (.builtin .fileRead)
  let flush ← newFunction (.builtin .fileFlush)
  let close ← newFunction (.builtin .fileClose)
  let others ← entries [("lines", .fileLines), ("seek", .fileSeek), ("setvbuf", .fileSetvbuf)]
  let methods ← newTable
    ([("write", .function write), ("read", .function read), ("flush", .function flush),
      ("close", .function close)] ++ others)
  let tostring ← newFunction (.builtin .fileTostring)
  let metatable ← newTable
    [("__index", .table methods), ("__name", .str "FILE*"), ("__tostring", .function tostring)]
  modify fun w => { w with io := { w.io with metatable, write, read, flush, close } }
  let input ← newFile input
  let output ← newFile output
  let error ← newFile error
  modify fun w => { w with io := { w.io with input, output, error } }

/-- The table of the io functions. -/
def ioTable : StateM World TableId := do
  let functions ← entries
    [("write", .ioWrite), ("read", .ioRead), ("flush", .ioFlush), ("close", .ioClose),
      ("open", .ioOpen), ("input", .ioInput), ("output", .ioOutput), ("type", .ioType)]
  let io := (← get).io
  newTable (functions ++
    [("stdin", .userdata io.input), ("stdout", .userdata io.output),
      ("stderr", .userdata io.error)])

def stringTable : StateM World TableId := do
  newTable (← entries
    [("format", .format), ("gsub", .gsub), ("byte", .byte), ("char", .char), ("find", .find),
      ("gmatch", .gmatch), ("len", .len), ("lower", .lower), ("match", .firstMatch),
      ("rep", .rep), ("reverse", .reverse), ("sub", .sub), ("upper", .upper)])

/-- The table of everything. -/
def environment : StateM World TableId := do
  let basic ← entries
    [("pause", .pause), ("tostring", .tostring), ("type", .typeName), ("error", .error)]
  let string ← stringTable
  let io ← ioTable
  newTable (basic ++ [("string", .table string), ("io", .table io)])

/-- The value at a path of names separated by dots, from a table on. -/
def lookupPath (w : World) (environment : TableId) (path : String) : Value :=
  (path.toList.splitOn '.').foldl (fun v name =>
    match v with
    | .table t => (w.table t).getText (String.ofList name)
    | _ => .nil) (.table environment)

end World

end CoopScript
