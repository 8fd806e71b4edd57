import ShiftReduce.CommandLine.Invocation
import ShiftReduce.Text.Quoted

namespace ShiftReduce.CommandLine

inductive ReadError : Type
  | notFound
  | denied
  | notADirectory
  | isADirectory
  | nameTooLong
  | notUtf8
  | other (text : String)
  deriving DecidableEq

def ReadError.message : ReadError → String
  | .notFound => "No such file or directory (os error 2)"
  | .denied => "Permission denied (os error 13)"
  | .notADirectory => "Not a directory (os error 20)"
  | .isADirectory => "Is a directory (os error 21)"
  | .nameTooLong => "File name too long (os error 36)"
  | .notUtf8 => "stream did not contain valid UTF-8"
  | .other text => text

def Origin.complaint : Origin → String
  | .file path => s!"can't open {Text.quote path}"
  | _ => "can't read standard input"

def decode (bytes : ByteArray) : Except ReadError String :=
  match String.fromUTF8? bytes with
  | some text => .ok text
  | none => .error .notUtf8

structure Folder where
  files : List (String × ByteArray)

namespace Folder

def maxName : Nat := 255

def maxPath : Nat := 4095

def belowFile : List String → Except ReadError Unit
  | [] => .ok ()
  | _ => .error .notADirectory

def outside : List String → Except ReadError ByteArray
  | [] => .error .isADirectory
  | "" :: parts | "." :: parts | ".." :: parts => outside parts
  | name :: _ => .error (if maxName < name.utf8ByteSize then .nameTooLong else .notFound)

def follow (folder : Folder) : List String → Except ReadError ByteArray
  | [] => .error .isADirectory
  | "" :: parts | "." :: parts => folder.follow parts
  | ".." :: parts => outside parts
  | name :: parts =>
    if maxName < name.utf8ByteSize then .error .nameTooLong
    else match folder.files.lookup name with
      | some content => do
        belowFile parts
        return content
      | none => .error .notFound

def read (folder : Folder) (path : String) : Except ReadError String := do
  if path.isEmpty then throw .notFound
  if maxPath < path.utf8ByteSize then throw .nameTooLong
  let parts := path.splitOn "/"
  decode (← if path.startsWith "/" then outside parts else folder.follow parts)

end Folder

def Origin.read (folder : Folder) (input : ByteArray) : Origin → Except ReadError String
  | .inline source => .ok source
  | .file path => folder.read path
  | .standardInput => decode input

end ShiftReduce.CommandLine
