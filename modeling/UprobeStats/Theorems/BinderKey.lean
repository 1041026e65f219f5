import UprobeStats.Theorems.BinderCleanup
import UprobeStats.Theorems.BinderFilter

/-! The two keys of an interface: the one that the accessor stores, which is cut to the size of the array, and
    the one that the program builds, which ends in a zero. -/

namespace UprobeStats
open Text

section Keys
variable {ctx : PtRegs} {mem : Memory} {name : String}

theorem bpfProbeReadUserStr_last {size : Nat} {src : UInt64} (hle : size ≤ 128) :
    (bpfProbeReadUserStr mem (Chars.zeros 128) size src).bytes[127]? = some 0 := by
  unfold bpfProbeReadUserStr
  split
  · rfl
  · cases hread : mem.readStr? (size - 1) src with
    | none =>
      rw [Chars.write_bytes (by simpa using hle), Chars.zeros, List.drop_replicate, List.replicate_append_replicate,
        List.getElem?_replicate, if_pos (by simp; omega)]
    | some bs =>
      have hlen := (Memory.readStr?_spec hread).2
      rw [Chars.write_bytes (by simp; omega), Chars.zeros, List.drop_replicate, List.append_assoc,
        List.getElem?_append_right (by omega), ← List.replicate_one, List.replicate_append_replicate,
        List.getElem?_replicate, if_pos (by simp)]

theorem transactionKey_last : (transactionKey ctx mem).interfaceDescriptor.bytes[127]? = some 0 := by
  refine bpfProbeReadUserStr_last ?_
  split
  · exact le_refl _
  · rename_i h
    exact Nat.le_of_not_lt h

theorem toCKey_last (hlen : 128 ≤ (utf8 name).length) :
    (toCKey name).interfaceDescriptor.bytes[127]? = (utf8 name)[127]? := by
  rw [toCKey_bytes, List.getElem?_append_left (by simp; omega), List.getElem?_take, if_pos (by omega)]

end Keys

/-- For an ASCII name without zeros the stored key is the one that the program looks up exactly when the name
    leaves room for the zero at its end. -/
theorem key_eq_iff_short {ctx : PtRegs} {mem : Memory} {name : String} (h : Descriptor mem (ctx.regs 1) name)
    (hascii : ∀ b ∈ utf8 name, b < 128) (hnul : 0 ∉ utf8 name) :
    toCKey name = transactionKey ctx mem ↔ (utf8 name).length ≤ 127 := by
  constructor
  · intro heq
    by_contra hlong
    have hlast := toCKey_last (show 128 ≤ (utf8 name).length by omega)
    rw [heq, transactionKey_last] at hlast
    exact hnul (List.mem_of_getElem? hlast.symm)
  · exact fun hshort => (h.key_eq ⟨hascii, hnul, hshort⟩).symm

theorem key_eq_a : toCKey "a" = transactionKey (transacting 0) (binderMemory "a") := by
  have hdescriptor : Descriptor (binderMemory "a") ((transacting 0).regs 1) "a" := (transaction_a 0).descriptor
  exact (key_eq_iff_short hdescriptor plainName_a.ascii plainName_a.nulFree).mpr plainName_a.short

/-- A name of 128 characters is stored under a key that the program never builds. -/
theorem key_ne_of_longName : Descriptor (binderMemory longName) ((transacting 0).regs 1) longName ∧
    (∀ b ∈ utf8 longName, b < 128) ∧ 0 ∉ utf8 longName ∧
      toCKey longName ≠ transactionKey (transacting 0) (binderMemory longName) := by
  refine ⟨⟨12, by decide +kernel, by decide +kernel, by decide +kernel⟩, by decide +kernel, by decide +kernel, ?_⟩
  decide +kernel

end UprobeStats
