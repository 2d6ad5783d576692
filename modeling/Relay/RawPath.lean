import Relay.Path
import Relay.Text.Utf8

/-!
# Paths as bytes

To the system a path is a sequence of bytes, and need not be text. `RawPath.join` puts a path of text under
such a directory, in the way of `Path.join`. Where a text is asked for, `RawPath.lossyText` is what can be
read of a path; bytes that spell no character are lost there.
-/

namespace Relay

structure RawPath where
  bytes : List UInt8
deriving DecidableEq, Repr

namespace RawPath

def slash : UInt8 := 0x2F

def ofText (text : String) : RawPath := ⟨Text.encode text.toList⟩

def lossyText (p : RawPath) : String := String.ofList (Text.decode p.bytes)

def join (directory : RawPath) (path : String) : RawPath :=
  if Path.isAbsolute path then ofText path
  else match directory.bytes.getLast? with
    | none => ofText path
    | some b =>
      if b = slash then ⟨directory.bytes ++ (ofText path).bytes⟩
      else ⟨directory.bytes ++ slash :: (ofText path).bytes⟩

end RawPath

end Relay
