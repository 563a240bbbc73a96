import SpriteMachine.Palette.Drawing
import SpriteMachine.Palette.Flow
import SpriteMachine.Palette.Sensing
import SpriteMachine.Palette.Sounds
import SpriteMachine.Palette.Sprites
import SpriteMachine.Palette.Values

/-!
The palette: all blocks that are known. The position of an entry is the number by which code calls its
builtin.
-/

namespace SpriteMachine.Palette

def entries : Array Entry :=
  (motion ++ looks ++ sound ++ events ++ control ++ sensing ++ operators ++ data ++ procedures ++ pen ++
    music).toArray

def indexOf? (opcode : String) : Option Nat :=
  entries.findIdx? fun e => e.opcode == opcode

def find? (opcode : String) : Option (Entry × Nat) :=
  (indexOf? opcode).bind fun i => (entries[i]?).map (·,i)

def builtin? (id : UInt32) : Option Builtin :=
  (entries[id.toNat]?).bind Entry.builtin

end SpriteMachine.Palette
