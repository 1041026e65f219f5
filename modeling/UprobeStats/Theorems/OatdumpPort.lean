import UprobeStats.ConfigResolver
import UprobeStats.Theorems.OatdumpLines
import UprobeStats.Theorems.Requests

/-! The lookup of a method in one output of `oatdump`. Rust finds it behind lines that are all entries with methods
    and gives the file up at any other line; where Rust finds it, C++ takes the same line for it. -/

namespace UprobeStats
open Rust Effect Text

/-- What both programs rely on a JSON parser for: they share it on text, a carriage return behind an entry is white
    space, and no entry has a zero in it. -/
structure ParsesAlike (dev : Device) (reader : List UInt8 → Option JsonLine) : Prop where
  common : ∀ s, reader (utf8 s) = dev.parseJson s
  carriageReturn : ∀ s, dev.parseJson (s ++ "\r") = dev.parseJson s
  nul : ∀ s, '\x00' ∈ s.toList → dev.parseJson s = none

/-- The number that the offset of an entry stands for, with or without its mark. -/
def JsonLine.number (entry : JsonLine) : Int32 :=
  Int32.ofInt ((hexDigits? (trimStart0x (entry.offset.getD "").toList)).getD 0 : Nat)

/-- The entry at the first line of an output with the method. -/
def entryOf (dev : Device) (methodSignature text : String) : Option JsonLine :=
  (lines text).findSome? fun line => (dev.parseJson line).filter fun entry => entry.method = some methodSignature

/-- The offset at the first line of an output with the method. -/
def offsetOf (dev : Device) (methodSignature text : String) : Option Int32 :=
  (entryOf dev methodSignature text).map JsonLine.number

/-- Each entry with the method has an offset. -/
def OffsetsGiven (dev : Device) (methodSignature text : String) : Prop :=
  ∀ line ∈ lines text, ∀ entry ∈ dev.parseJson line, entry.method = some methodSignature →
    ∃ offset n, entry.offset = some offset ∧ HexOffset offset n

/-- The lines up to one with the method are all entries with methods. -/
def Clean (dev : Device) (methodSignature text : String) : Prop :=
  ∃ before line after, lines text = before ++ line :: after ∧
    (∀ l ∈ before, ∃ entry, dev.parseJson l = some entry ∧ entry.method.isSome) ∧
    ∃ entry, dev.parseJson line = some entry ∧ entry.method = some methodSignature

/-- An output as C++ cuts it: a line with a zero goes on in the next. -/
def Cxx.linesOf (text : String) : List (List UInt8) := getlines (readPipe (utf8 text).length (utf8 text))

/-- The entry at the first line that C++ takes for the method: one without a method has the empty one. -/
def Cxx.entryTaken (reader : List UInt8 → Option JsonLine) (methodSignature text : String) : Option JsonLine :=
  (linesOf text).findSome? fun line => (reader line).filter fun entry => entry.method.getD "" = methodSignature

/-! ### One output in Rust -/

section Rust
variable {dev : Device} {sig : String}

theorem HexOffset.number {entry : JsonLine} {offset : String} {n : Nat} (hoffset : entry.offset = some offset)
    (h : HexOffset offset n) : entry.number = Int32.ofInt n ∧ 0 < entry.number := by
  obtain ⟨digits, hs, hdigits, hpos, hlt⟩ := h
  have htrim : trimStart0x offset.toList = digits := by
    have hdigits' := trimStart0x_digits (hexDigits?_eq_some hdigits).2
    rcases hs with hs | hs
    · rw [hs, hdigits']
    · rw [hs, trimStart0x, hdigits']
  have hnumber : entry.number = Int32.ofInt n := by
    rw [JsonLine.number, hoffset, Option.getD_some, htrim, hdigits, Option.getD_some]
  refine ⟨hnumber, ?_⟩
  rw [hnumber, Int32.lt_iff_toInt_lt, Int32.toInt_ofInt_of_le (by omega) (by omega)]
  exact Int.natCast_pos.mpr hpos

/-- What the search in Rust makes of a line. -/
theorem findOffset_cons_eq_ok {line : String} {rest : List String} {r : Option Int32} :
    findOffset dev sig (line :: rest) = .ok r ↔ ∃ entry method, dev.parseJson line = some entry ∧
      entry.method = some method ∧ if method = sig then
        ∃ offset n, entry.offset = some offset ∧ fromStrRadix16 (trimStart0x offset.toList) = some n ∧ r = some n
      else findOffset dev sig rest = .ok r := by
  rw [findOffset, andThen_eq_ok]
  constructor
  · rintro ⟨entry, hentry, h⟩
    obtain ⟨method, hmethod, h⟩ := andThen_eq_ok.mp h
    refine ⟨entry, method, okOr_eq_ok.mp hentry, okOr_eq_ok.mp hmethod, ?_⟩
    by_cases hsig : method = sig
    · rw [if_pos hsig] at h ⊢
      obtain ⟨offset, hoffset, h⟩ := andThen_eq_ok.mp h
      obtain ⟨n, hn, h⟩ := andThen_eq_ok.mp h
      exact ⟨offset, n, okOr_eq_ok.mp hoffset, okOr_eq_ok.mp hn, (Except.ok.inj h).symm⟩
    · rwa [if_neg hsig] at h ⊢
  · rintro ⟨entry, method, hentry, hmethod, h⟩
    refine ⟨entry, okOr_eq_ok.mpr hentry, andThen_eq_ok.mpr ⟨method, okOr_eq_ok.mpr hmethod, ?_⟩⟩
    by_cases hsig : method = sig
    · rw [if_pos hsig] at h ⊢
      obtain ⟨offset, n, hoffset, hn, rfl⟩ := h
      exact andThen_eq_ok.mpr ⟨offset, okOr_eq_ok.mpr hoffset, andThen_eq_ok.mpr ⟨n, okOr_eq_ok.mpr hn, rfl⟩⟩
    · rwa [if_neg hsig] at h ⊢

/-- Rust finds an offset only at the first line for the method, and only behind entries with methods. -/
theorem findOffset_eq_ok_some : ∀ {ls : List String} {n : Int32}, findOffset dev sig ls = .ok (some n) →
    (∀ line ∈ ls, ∀ entry ∈ dev.parseJson line, entry.method = some sig →
      ∃ offset m, entry.offset = some offset ∧ HexOffset offset m) →
    (∃ before line after, ls = before ++ line :: after ∧
      (∀ l ∈ before, ∃ entry, dev.parseJson l = some entry ∧ entry.method.isSome) ∧
      ∃ entry, dev.parseJson line = some entry ∧ entry.method = some sig) ∧
    (ls.findSome? fun line => (dev.parseJson line).filter fun entry => entry.method = some sig).map JsonLine.number = some n
  | [], _, h, _ => by cases h
  | line :: ls, n, h, hoffsets => by
    obtain ⟨entry, method, hentry, hmethod, hfound⟩ := findOffset_cons_eq_ok.mp h
    obtain ⟨hfirst, hrest⟩ := List.forall_mem_cons.mp hoffsets
    by_cases hsig : method = sig
    · rw [if_pos hsig] at hfound
      subst hsig
      obtain ⟨offset, n', hoffset, hn', hn⟩ := hfound
      obtain rfl := Option.some.inj hn
      obtain ⟨offset', m, hoffset', hhex⟩ := hfirst entry hentry hmethod
      obtain rfl := Option.some.inj (hoffset.symm.trans hoffset')
      refine ⟨⟨[], line, ls, rfl, by simp, entry, hentry, hmethod⟩, ?_⟩
      rw [List.findSome?_cons, hentry, Option.filter_some, if_pos (decide_eq_true hmethod), Option.map_some,
        (hhex.number hoffset).1]
      exact congrArg some (Option.some.inj ((hhex.reads 0).1.symm.trans hn'))
    · rw [if_neg hsig] at hfound
      obtain ⟨⟨before, line', after, hls, hbefore, hline'⟩, hnumber⟩ := findOffset_eq_ok_some hfound hrest
      have hskip : (dev.parseJson line).filter (fun entry => entry.method = some sig) = none := by
        rw [hentry, Option.filter_some, if_neg]
        simpa [hmethod] using hsig
      refine ⟨⟨line :: before, line', after, by rw [hls]; rfl, ?_, hline'⟩, by rw [List.findSome?_cons, hskip]; exact hnumber⟩
      exact List.forall_mem_cons.mpr ⟨⟨entry, hentry, by rw [hmethod]; rfl⟩, hbefore⟩

/-- Behind entries with methods the line for the method is found. -/
theorem findOffset_of_clean : ∀ {before : List String} {line : String} {after : List String},
    (∀ l ∈ before ++ line :: after, ∀ entry ∈ dev.parseJson l, entry.method = some sig →
      ∃ offset m, entry.offset = some offset ∧ HexOffset offset m) →
    (∀ l ∈ before, ∃ entry, dev.parseJson l = some entry ∧ entry.method.isSome) →
    (∃ entry, dev.parseJson line = some entry ∧ entry.method = some sig) →
    ∃ n, findOffset dev sig (before ++ line :: after) = .ok (some n)
  | [], line, after, hoffsets, _, ⟨entry, hentry, hmethod⟩ => by
    obtain ⟨offset, m, hoffset, hhex⟩ := hoffsets line (by simp) entry hentry hmethod
    exact ⟨_, findOffset_cons_eq_ok.mpr
      ⟨entry, sig, hentry, hmethod, by rw [if_pos rfl]; exact ⟨offset, _, hoffset, (hhex.reads 0).1, rfl⟩⟩⟩
  | l :: before, line, after, hoffsets, hbefore, hline => by
    obtain ⟨hfirst, hrest⟩ := List.forall_mem_cons.mp hoffsets
    obtain ⟨⟨entry, hentry, hsome⟩, hbefore⟩ := List.forall_mem_cons.mp hbefore
    obtain ⟨method, hmethod⟩ := Option.isSome_iff_exists.mp hsome
    by_cases hsig : method = sig
    · subst hsig
      obtain ⟨offset, m, hoffset, hhex⟩ := hfirst entry hentry hmethod
      exact ⟨_, findOffset_cons_eq_ok.mpr
        ⟨entry, method, hentry, hmethod, by rw [if_pos rfl]; exact ⟨offset, _, hoffset, (hhex.reads 0).1, rfl⟩⟩⟩
    · obtain ⟨n, hn⟩ := findOffset_of_clean hrest hbefore hline
      exact ⟨n, findOffset_cons_eq_ok.mpr ⟨entry, method, hentry, hmethod, by rw [if_neg hsig]; exact hn⟩⟩

theorem OffsetsGiven.entryOf {text : String} {entry : JsonLine} (h : OffsetsGiven dev sig text)
    (hentry : entryOf dev sig text = some entry) :
    ∃ offset n, entry.offset = some offset ∧ HexOffset offset n := by
  obtain ⟨line, hline, hfilter⟩ := List.exists_of_findSome?_eq_some hentry
  obtain ⟨hparse, hmethod⟩ := Option.filter_eq_some_iff.mp hfilter
  exact h line hline entry hparse (of_decide_eq_true hmethod)

/-- The offset that Rust takes from an output. -/
def foundOffset (dev : Device) (methodSignature text : String) : Option Int32 :=
  ((findOffset dev methodSignature (lines text)).toOption.bind id).filter (0 < ·)

theorem foundOffset_of_clean {text : String} (hoffsets : OffsetsGiven dev sig text) (h : Clean dev sig text) :
    ∃ n, findOffset dev sig (lines text) = .ok (some n) ∧ foundOffset dev sig text = some n ∧
      offsetOf dev sig text = some n := by
  obtain ⟨before, line, after, hlines, hbefore, hline⟩ := h
  obtain ⟨n, hn⟩ := findOffset_of_clean (fun l hl => hoffsets l (hlines ▸ hl)) hbefore hline
  rw [← hlines] at hn
  have hnumber := (findOffset_eq_ok_some hn hoffsets).2
  obtain ⟨entry, hentry, rfl⟩ := Option.map_eq_some_iff.mp hnumber
  obtain ⟨offset, m, hoffset, hhex⟩ := hoffsets.entryOf hentry
  refine ⟨_, hn, ?_, hnumber⟩
  rw [foundOffset, hn]
  exact Option.filter_eq_some_iff.mpr ⟨rfl, decide_eq_true (hhex.number hoffset).2⟩

theorem clean_of_foundOffset {text : String} {n : Int32} (hoffsets : OffsetsGiven dev sig text)
    (h : foundOffset dev sig text = some n) : Clean dev sig text := by
  obtain ⟨hfound, -⟩ := Option.filter_eq_some_iff.mp h
  cases hresult : findOffset dev sig (lines text) with
  | error e =>
    rw [hresult] at hfound
    cases hfound
  | ok r =>
    rw [hresult] at hfound
    obtain rfl : r = some n := hfound
    exact (findOffset_eq_ok_some hresult hoffsets).1

end Rust

/-! ### One output in C++ -/

section Cxx
variable {dev : Device} {reader : List UInt8 → Option JsonLine} {sig : String}

theorem cxx_findOffset_eq {unset : Int32} {text : String} : Cxx.findOffset reader unset sig (Cxx.linesOf text) =
    ((Cxx.entryTaken reader sig text).map fun entry => Cxx.readHex unset (entry.offset.getD "")).getD 0 := by
  rw [Cxx.entryTaken]
  induction Cxx.linesOf text with
  | nil => rfl
  | cons line lines ih =>
    rw [Cxx.findOffset, List.findSome?_cons]
    cases reader line with
    | none => exact ih
    | some entry =>
      by_cases hmethod : entry.method.getD "" = sig
      · simp [Option.filter, hmethod]
      · simp only [Option.filter, hmethod, decide_false, Bool.false_eq_true, if_false]
        exact ih

/-- C++ reads from a line what Rust reads from it without its carriage return. -/
theorem ParsesAlike.line (hparse : ParsesAlike dev reader) (l : List Char) :
    reader (utf8 (String.ofList l)) = dev.parseJson (String.ofList (stripCr l)) := by
  rw [hparse.common]
  rcases stripCr_cases l with hl | hl
  · rw [← hl]
  · have happend : String.ofList (stripCr l ++ ['\r']) = String.ofList (stripCr l) ++ "\r" := String.ofList_append
    conv_lhs => rw [hl, happend, hparse.carriageReturn]

theorem ParsesAlike.nulFree (hparse : ParsesAlike dev reader) {l : List Char} {entry : JsonLine}
    (h : dev.parseJson (String.ofList l) = some entry) : '\x00' ∉ l := by
  intro hmem
  rw [hparse.nul _ (by rwa [String.toList_ofList])] at h
  cases h

/-- Of an entry with a method both programs say the same. -/
theorem filter_method_eq {entry : JsonLine} {method : String} (h : entry.method = some method) :
    (some entry).filter (fun entry => entry.method.getD "" = sig) =
      (some entry).filter (fun entry => entry.method = some sig) := by
  simp [Option.filter, h]

/-- Where Rust finds the method, C++ takes the same line for it. -/
theorem taken_of_findOffset (hparse : ParsesAlike dev reader) (cs : List Char) : ∀ (fuel : Nat) {n : Int32},
    findOffset dev sig (lines (String.ofList cs)) = .ok (some n) → (utf8 (String.ofList cs)).length ≤ fuel →
    ((Cxx.getlines (Cxx.readPipe fuel (utf8 (String.ofList cs)))).findSome? fun line =>
        (reader line).filter fun entry => entry.method.getD "" = sig) = entryOf dev sig (String.ofList cs) := by
  induction cs using line_induction with
  | last l hl =>
    intro fuel n hfind hfuel
    rw [entryOf]
    rw [lines_last hl] at hfind ⊢
    by_cases hnil : l = []
    · rw [if_pos hnil] at hfind
      cases hfind
    · rw [if_neg hnil] at hfind ⊢
      obtain ⟨entry, method, hentry, hmethod, -⟩ := findOffset_cons_eq_ok.mp hfind
      rw [Cxx.textLines_last (hparse.nulFree hentry) hl hfuel, if_neg hnil, List.findSome?_cons, List.findSome?_cons,
        hparse.common, hentry, filter_method_eq hmethod]
      rfl
  | newline l rest hl ih =>
    intro fuel n hfind hfuel
    rw [entryOf]
    rw [lines_newline hl] at hfind ⊢
    obtain ⟨entry, method, hentry, hmethod, hfound⟩ := findOffset_cons_eq_ok.mp hfind
    have hnul : '\x00' ∉ l := by
      rcases stripCr_cases l with hcr | hcr
      · rw [hcr]
        exact hparse.nulFree hentry
      · rw [hcr, List.mem_append, not_or]
        exact ⟨hparse.nulFree hentry, by decide⟩
    obtain ⟨fuel', hfuel', hlines⟩ := Cxx.textLines_newline hnul hl hfuel
    rw [hlines, List.findSome?_cons, List.findSome?_cons, hparse.line, hentry, filter_method_eq hmethod]
    by_cases hsig : method = sig
    · rw [Option.filter_some, if_pos (decide_eq_true (hmethod.trans (congrArg some hsig)))]
    · rw [if_neg hsig] at hfound
      rw [Option.filter_some, if_neg (by simpa [hmethod] using hsig)]
      exact ih fuel' hfound hfuel'

/-- In a text without a zero C++ takes the first line for a method other than the empty one. -/
theorem taken_of_nulFree (hparse : ParsesAlike dev reader) (hsig : sig ≠ "") (cs : List Char) : ∀ fuel : Nat,
    '\x00' ∉ cs → (utf8 (String.ofList cs)).length ≤ fuel →
    ((Cxx.getlines (Cxx.readPipe fuel (utf8 (String.ofList cs)))).findSome? fun line =>
        (reader line).filter fun entry => entry.method.getD "" = sig) = entryOf dev sig (String.ofList cs) := by
  have hfilter : ∀ found : Option JsonLine, found.filter (fun entry => entry.method.getD "" = sig) =
      found.filter (fun entry => entry.method = some sig) := by
    rintro (_ | entry)
    · rfl
    · cases hmethod : entry.method with
      | none => simp [Option.filter, hmethod, hsig.symm]
      | some method => exact filter_method_eq hmethod
  induction cs using line_induction with
  | last l hl =>
    intro fuel hnul hfuel
    rw [entryOf, lines_last hl, Cxx.textLines_last hnul hl hfuel]
    by_cases hnil : l = []
    · rw [if_pos hnil, if_pos hnil]
      rfl
    · rw [if_neg hnil, if_neg hnil, List.findSome?_cons, List.findSome?_cons, hfilter, hparse.common]
      rfl
  | newline l rest hl ih =>
    intro fuel hnul hfuel
    rw [List.mem_append, List.mem_cons, not_or, not_or] at hnul
    obtain ⟨hnul, -, hrest⟩ := hnul
    obtain ⟨fuel', hfuel', hlines⟩ := Cxx.textLines_newline hnul hl hfuel
    rw [entryOf, lines_newline hl, hlines, List.findSome?_cons, List.findSome?_cons, hparse.line, hfilter, ih fuel' hrest hfuel']
    rfl

theorem entryTaken_of_nulFree (hparse : ParsesAlike dev reader) (hsig : sig ≠ "") {text : String}
    (h : '\x00' ∉ text.toList) : Cxx.entryTaken reader sig text = entryOf dev sig text := by
  have htaken := taken_of_nulFree hparse hsig text.toList (utf8 text).length h
    (by rw [String.ofList_toList])
  rwa [String.ofList_toList] at htaken

theorem entryTaken_of_findOffset (hparse : ParsesAlike dev reader) {text : String} {n : Int32}
    (h : findOffset dev sig (lines text) = .ok (some n)) : Cxx.entryTaken reader sig text = entryOf dev sig text := by
  have htaken := taken_of_findOffset hparse text.toList (utf8 text).length
    (by rw [String.ofList_toList]; exact h) (by rw [String.ofList_toList])
  rwa [String.ofList_toList] at htaken

/-- The offset that C++ takes from an output, or zero. -/
def Cxx.takenOffset (unset : Int32) (reader : List UInt8 → Option JsonLine) (methodSignature text : String) : Int32 :=
  ((entryTaken reader methodSignature text).map fun entry => readHex unset (entry.offset.getD "")).getD 0

theorem takenOffset_of_clean (hparse : ParsesAlike dev reader) {text : String} (hoffsets : OffsetsGiven dev sig text)
    {unset : Int32} (h : Clean dev sig text) : offsetOf dev sig text = some (Cxx.takenOffset unset reader sig text) ∧
      0 < Cxx.takenOffset unset reader sig text := by
  obtain ⟨n, hfind, -, hnumber⟩ := foundOffset_of_clean hoffsets h
  obtain ⟨entry, hentry, rfl⟩ := Option.map_eq_some_iff.mp hnumber
  obtain ⟨offset, m, hoffset, hhex⟩ := hoffsets.entryOf hentry
  have htaken : Cxx.takenOffset unset reader sig text = entry.number := by
    rw [Cxx.takenOffset, entryTaken_of_findOffset hparse hfind, hentry, Option.map_some, Option.getD_some, hoffset,
      Option.getD_some, (hhex.reads unset).2, (hhex.number hoffset).1]
  rw [htaken]
  exact ⟨hnumber, (hhex.number hoffset).2⟩

end Cxx

end UprobeStats
