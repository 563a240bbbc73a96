import Mathlib
import SpriteMachine.Palette

/-!
Looking entries up: no two entries of the palette have the same opcode, so each is found by its own.
-/

namespace SpriteMachine

namespace Palette

def byteCode (s : String) : Nat :=
  s.toByteArray.data.toList.foldl (fun n b => n * 256 + b.toNat) 0

set_option maxRecDepth 100000 in
theorem opcodes_nodup : (entries.toList.map Entry.opcode).Nodup := by
  have hcodes : ((entries.toList.map Entry.opcode).map byteCode).Nodup := by decide +kernel
  exact List.Pairwise.of_map byteCode (fun a b hne heq => hne (congrArg byteCode heq)) hcodes

theorem size_entries : entries.size = 168 := by decide +kernel

theorem builtin?_ofNat {id : Nat} {e : Entry} (h : entries[id]? = some e) :
    builtin? (UInt32.ofNat id) = e.builtin := by
  have hlt : id < 2 ^ 32 := Nat.lt_trans (Array.getElem?_eq_some_iff.1 h).1 (by rw [size_entries]; decide)
  rw [builtin?,UInt32.toNat_ofNat_of_lt' hlt,h,Option.bind_some]

theorem find?_eq_some {opcode : String} {e : Entry} {id : Nat} (h : find? opcode = some (e,id)) :
    e ∈ entries.toList ∧ e.opcode = opcode ∧ builtin? (UInt32.ofNat id) = e.builtin := by
  obtain ⟨i,hi,h⟩ := Option.bind_eq_some_iff.1 h
  obtain ⟨e',he,h⟩ := Option.map_eq_some_iff.1 h
  cases h
  obtain ⟨hlt,heq,-⟩ := Array.findIdx?_eq_some_iff_getElem.1 hi
  have hget := he
  rw [Array.getElem?_eq_getElem hlt,Option.some.injEq] at hget
  rw [hget] at heq
  exact ⟨Array.mem_toList_iff.2 (Array.mem_of_getElem? he),by simpa using heq,builtin?_ofNat he⟩

theorem find?_of_mem {e : Entry} (h : e ∈ entries.toList) :
    ∃ id, find? e.opcode = some (e,id) ∧ indexOf? e.opcode = some id ∧ builtin? (UInt32.ofNat id) = e.builtin := by
  obtain ⟨id,hid⟩ := List.getElem?_of_mem h
  rw [Array.getElem?_toList] at hid
  have hlt := (Array.getElem?_eq_some_iff.1 hid).1
  have hindex : indexOf? e.opcode = some id := by
    refine Array.findIdx?_eq_some_iff_getElem.2 ⟨hlt,?_,?_⟩
    · simp [(Array.getElem?_eq_some_iff.1 hid).2]
    · intro j hj heq
      have hget : (entries.toList.map Entry.opcode)[j]? = (entries.toList.map Entry.opcode)[id]? := by
        have hj' : j < entries.size := Nat.lt_trans hj hlt
        have hopcode : entries[j].opcode = e.opcode := by simpa using heq
        simp [hid,Array.getElem?_eq_getElem hj',hopcode]
      have := (List.getElem?_inj (by simpa using Nat.lt_trans hj hlt) opcodes_nodup).1 hget
      omega
  exact ⟨id,by rw [find?,hindex,Option.bind_some,hid]; rfl,hindex,builtin?_ofNat hid⟩

theorem mem_of_group {g : List Entry} {e : Entry} {i : Nat} (hg : g ∈ [motion,looks,sound,events,control,sensing,
    operators,data,procedures,pen,music]) (h : g[i]? = some e) : e ∈ entries.toList := by
  have hentries : entries.toList = [motion,looks,sound,events,control,sensing,operators,data,procedures,pen,
      music].flatten := by simp [entries]
  rw [hentries]
  exact List.mem_flatten.2 ⟨g,hg,List.mem_of_getElem? h⟩

end Palette

end SpriteMachine
