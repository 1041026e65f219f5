import UprobeStats.Theorems.OatdumpPort

/-! The lookup of a method in the files of a probe. C++ skips a line that is no JSON; Rust gives its file up. They
    choose the same file and offset exactly when the file has nothing of that kind before the method. -/

namespace UprobeStats
open Rust Effect Text

/-- The first file with a line for the method, and the offset there. -/
def firstMatch (dev : Device) (methodSignature : String) (text : String → String) (filePaths : List String) :
    Option (String × Int32) :=
  filePaths.findSome? fun path => (offsetOf dev methodSignature (text path)).map (path, ·)

/-- `oatdump` succeeds on each file and prints its text. -/
def Dumps (dev : Device) (text : String → String) (filePaths : List String) : Prop :=
  ∀ path ∈ filePaths, ∀ requests, ∃ stderr, dev.oatdump requests path = .ok ⟨true, utf8 (text path), stderr⟩

section Files
variable {dev : Device} {reader : List UInt8 → Option JsonLine} {sig : String} {text : String → String}

theorem value_findInOatFiles : ∀ {filePaths : List String} {w : World}, Dumps dev text filePaths →
    value? ((findInOatFiles dev sig filePaths).run w) =
      some (filePaths.findSome? fun path => (foundOffset dev sig (text path)).map (path, ·))
  | [], _, _ => rfl
  | path :: filePaths, w, hdumps => by
    obtain ⟨hpath, hrest⟩ := List.forall_mem_cons.mp hdumps
    obtain ⟨stderr, houtput⟩ := hpath w.requests
    have hanswer : (do
        let output ← dev.oatdump w.requests path
        if !output.success then
          let stderr ← okOr (fromUtf8? output.stderr) "oatdump failed, error parsing stderr"
          .error (.message s!"error from oatdump: {stderr}")
        else
          let stdout ← okOr (fromUtf8? output.stdout) "could not read oatdump stdout"
          findOffset dev sig (lines stdout)) = findOffset dev sig (lines (text path)) := by
      rw [houtput]
      show (okOr (fromUtf8? (utf8 (text path))) _ >>= _) = _
      rw [fromUtf8?_utf8]
      rfl
    rw [findInOatFiles, getMethodOffsetFromOatdump, run_attempt_ask_bind, hanswer, List.findSome?_cons, foundOffset]
    dsimp only
    cases (findOffset dev sig (lines (text path))).toOption.bind id with
    | none => exact value_findInOatFiles hrest
    | some n =>
      rw [Option.getD_some, Option.filter_some]
      by_cases hpos : 0 < n
      · rw [if_pos hpos, if_pos (decide_eq_true hpos)]
        rfl
      · rw [if_neg hpos, if_neg (by simpa using hpos)]
        exact value_findInOatFiles hrest

theorem cxx_value_findInOatFiles : ∀ {filePaths : List String} {offset : Int32} {w : World}, Dumps dev text filePaths →
    value? ((Cxx.findInOatFiles dev reader sig filePaths offset).run w) =
      some ((filePaths.findSome? fun path =>
          if 0 < Cxx.takenOffset (dev.unsetOffset path) reader sig (text path) then
            some (path, Cxx.takenOffset (dev.unsetOffset path) reader sig (text path)) else none).getD
        ("", (filePaths.getLast?.map fun path => Cxx.takenOffset (dev.unsetOffset path) reader sig (text path)).getD offset))
  | [], _, _, _ => rfl
  | path :: filePaths, offset, w, hdumps => by
    obtain ⟨hpath, hrest⟩ := List.forall_mem_cons.mp hdumps
    obtain ⟨stderr, houtput⟩ := hpath w.requests
    have hrun : (Cxx.getMethodOffsetFromOatdump dev reader path sig).run w =
        .ok (Cxx.takenOffset (dev.unsetOffset path) reader sig (text path))
          { w with requests := w.requests ++ [.oatdump path] } := by
      refine ask_eq_ok.mpr ⟨?_, rfl⟩
      rw [houtput]
      exact congrArg Except.ok cxx_findOffset_eq
    rw [Cxx.findInOatFiles, EStateM.run_bind, hrun, List.findSome?_cons]
    dsimp only
    by_cases hpos : 0 < Cxx.takenOffset (dev.unsetOffset path) reader sig (text path)
    · rw [if_pos hpos, if_pos hpos]
      rfl
    · rw [if_neg hpos, if_neg hpos]
      refine (cxx_value_findInOatFiles hrest).trans ?_
      rw [List.getLast?_cons]
      cases filePaths.getLast? <;> rfl

/-! ### Two choices -/

/-- Two searches, of which the first misses some results of the second, agree when it does not miss the first. -/
theorem findSome?_eq_iff {f g : String → Option Int32} : ∀ {l : List String}, (∀ a ∈ l, f a = none ∨ f a = g a) →
    ((l.findSome? fun a => (f a).map (a, ·)) = (l.findSome? fun a => (g a).map (a, ·)) ↔
      ∀ a, l.find? (fun a => (g a).isSome) = some a → f a = g a)
  | [], _ => by simp
  | a :: l, h => by
    obtain ⟨ha, hl⟩ := List.forall_mem_cons.mp h
    rw [List.findSome?_cons, List.findSome?_cons, List.find?_cons]
    cases hg : g a with
    | none =>
      have hf : f a = none := by
        rcases ha with hnone | heq
        · exact hnone
        · rw [heq, hg]
      rw [hf]
      exact findSome?_eq_iff hl
    | some b =>
      cases hf : f a with
      | some c =>
        obtain rfl : c = b := by
          rcases ha with hnone | heq
          · rw [hf] at hnone
            cases hnone
          · exact Option.some.inj (hf.symm.trans (heq.trans hg))
        simp [hf, hg]
      | none =>
        refine iff_of_false (fun heq => ?_) fun hall => ?_
        · obtain ⟨a', ha', hmap⟩ := List.exists_of_findSome?_eq_some heq
          obtain ⟨c, hc, hpair⟩ := Option.map_eq_some_iff.mp hmap
          obtain ⟨rfl, -⟩ := Prod.mk.inj hpair
          rw [hf] at hc
          cases hc
        · have := hall a rfl
          rw [hf, hg] at this
          cases this

/-- What is left of the offsets of all files: the first that is positive with its file, or else the last if it is
    not zero. -/
def Cxx.choice (taken : String → Int32) (filePaths : List String) (offset : Int32) : Option (String × Int32) :=
  Option.guard (·.2 ≠ 0) <|
    (filePaths.findSome? fun path => if 0 < taken path then some (path, taken path) else none).getD
      ("", (filePaths.getLast?.map taken).getD offset)

section Choice
variable {taken : String → Int32} {path : String} {filePaths : List String} {offset : Int32}

theorem Cxx.choice_nil : Cxx.choice taken [] offset = if offset = 0 then none else some ("", offset) := by
  by_cases hzero : offset = 0 <;> simp [choice, Option.guard, hzero]

theorem Cxx.choice_cons_of_pos (h : 0 < taken path) :
    Cxx.choice taken (path :: filePaths) offset = some (path, taken path) := by
  have hne : taken path ≠ 0 := by
    intro hzero
    rw [hzero] at h
    exact absurd h (by decide)
  simp [choice, Option.guard, h, hne]

theorem Cxx.choice_cons_of_not_pos (h : ¬0 < taken path) :
    Cxx.choice taken (path :: filePaths) offset = Cxx.choice taken filePaths (taken path) := by
  rw [choice, choice, List.findSome?_cons, if_neg h, List.getLast?_cons]
  cases filePaths.getLast? <;> rfl

end Choice

theorem cxx_choice_eq_iff {taken : String → Int32} {want : String → Option Int32} :
    ∀ {filePaths : List String} {offset : Int32},
    (∀ path, filePaths.find? (fun path => (want path).isSome) = some path →
      want path = some (taken path) ∧ 0 < taken path) →
    (Cxx.choice taken filePaths offset = (filePaths.findSome? fun path => (want path).map (path, ·)) ↔
      (∀ path ∈ filePaths.takeWhile fun path => (want path).isNone, ¬0 < taken path) ∧
      (filePaths.find? (fun path => (want path).isSome) = none → (filePaths.getLast?.map taken).getD offset = 0))
  | [], offset, _ => by
    rw [Cxx.choice_nil]
    simp
  | path :: filePaths, offset, hfirst => by
    rw [List.findSome?_cons, List.takeWhile_cons]
    rw [List.find?_cons] at hfirst ⊢
    cases hwant : want path with
    | some b =>
      obtain ⟨htaken, hpos⟩ := hfirst path (by rw [hwant]; rfl)
      obtain rfl := Option.some.inj (hwant.symm.trans htaken)
      simp [Cxx.choice_cons_of_pos hpos]
    | none =>
      rw [hwant] at hfirst
      by_cases hpos : 0 < taken path
      · refine iff_of_false (fun heq => ?_) fun h => h.1 path (by simp) hpos
        rw [Cxx.choice_cons_of_pos hpos] at heq
        obtain ⟨path', hmem, hmap⟩ := List.exists_of_findSome?_eq_some heq.symm
        obtain ⟨c, hc, hpair⟩ := Option.map_eq_some_iff.mp hmap
        obtain ⟨rfl, -⟩ := Prod.mk.inj hpair
        rw [hwant] at hc
        cases hc
      · rw [Cxx.choice_cons_of_not_pos hpos]
        refine (cxx_choice_eq_iff hfirst).trans ?_
        have hlast : ((path :: filePaths).getLast?.map taken).getD offset =
            (filePaths.getLast?.map taken).getD (taken path) := by
          rw [List.getLast?_cons]
          cases filePaths.getLast? <;> rfl
        rw [hlast]
        have hall : (∀ p ∈ path :: filePaths.takeWhile fun path => (want path).isNone, ¬0 < taken p) ↔
            ∀ p ∈ filePaths.takeWhile fun path => (want path).isNone, ¬0 < taken p :=
          List.forall_mem_cons.trans (and_iff_right hpos)
        exact and_congr hall.symm Iff.rfl

/-! ### The two programs -/

/-- Rust comes to the method in the first file that has it, and C++ takes no file before for one that has it. -/
structure SearchesAgree (dev : Device) (reader : List UInt8 → Option JsonLine) (methodSignature : String)
    (text : String → String) (filePaths : List String) : Prop where
  clean : ∀ path, filePaths.find? (fun path => (offsetOf dev methodSignature (text path)).isSome) = some path →
    Clean dev methodSignature (text path)
  alone : ∀ path ∈ filePaths.takeWhile fun path => (offsetOf dev methodSignature (text path)).isNone,
    ∀ entry ∈ Cxx.entryTaken reader methodSignature (text path),
      ¬0 < Cxx.readHex (dev.unsetOffset path) (entry.offset.getD "")
  last : filePaths.find? (fun path => (offsetOf dev methodSignature (text path)).isSome) = none →
    ∀ path ∈ filePaths.getLast?, ∀ entry ∈ Cxx.entryTaken reader methodSignature (text path),
      Cxx.readHex (dev.unsetOffset path) (entry.offset.getD "") = 0

theorem value_resolveByOatdump {probe : ProbeConfig} {bpfProgramPath : String} {w : World}
    (hsig : probe.methodSignature = some sig) (hdumps : Dumps dev text probe.filePaths) :
    (value? ((resolveByOatdump dev probe bpfProgramPath).run w)).map (fun p => (p.filename, p.offset)) =
      probe.filePaths.findSome? fun path => (foundOffset dev sig (text path)).map (path, ·) := by
  have hvalue : value? ((findInOatFiles dev sig probe.filePaths).run w) = _ := value_findInOatFiles hdumps
  obtain ⟨w', hrun⟩ := exists_of_value? hvalue
  rw [resolveByOatdump, run_lift_bind_of_ok (okOr_eq_ok.mpr hsig), EStateM.run_bind, hrun]
  dsimp only
  cases probe.filePaths.findSome? fun path => (foundOffset dev sig (text path)).map (path, ·) <;> rfl

theorem cxx_value_resolveProbe {probe : ProbeConfig} {taskConfig : Task} {w : World}
    (hclass : probe.fullyQualifiedClassName = none) (hsig : probe.methodSignature = some sig)
    (hdumps : Dumps dev text probe.filePaths) :
    (value? ((Cxx.resolveProbe dev reader taskConfig probe).run w)).map (fun p => (p.filename, p.offset)) =
      Cxx.choice (fun path => Cxx.takenOffset (dev.unsetOffset path) reader sig (text path)) probe.filePaths 0 := by
  have hvalue : value? ((Cxx.findInOatFiles dev reader sig probe.filePaths 0).run w) = _ :=
    cxx_value_findInOatFiles hdumps
  obtain ⟨w', hrun⟩ := exists_of_value? hvalue
  have hbranch : ¬(dev.flags.executableMethodFileOffsets && probe.fullyQualifiedClassName.isSome) := by simp [hclass]
  rw [Cxx.resolveProbe, if_neg hbranch, hsig, Option.getD_some, EStateM.run_bind, hrun, Cxx.choice]
  dsimp only
  generalize (probe.filePaths.findSome? fun path => if 0 < Cxx.takenOffset (dev.unsetOffset path) reader sig (text path) then
    some (path, Cxx.takenOffset (dev.unsetOffset path) reader sig (text path)) else none).getD _ = found
  by_cases hzero : found.2 = 0
  · rw [Option.guard_eq_none_iff.mpr (by simp [hzero])]
    have hensure : ensure (found.2 ≠ 0) "Unable to find method offset" =
        .error (.message "Unable to find method offset") := by
      simp [ensure, hzero]
    rw [hensure]
    rfl
  · have hensure : ensure (found.2 ≠ 0) "Unable to find method offset" = .ok () := by simp [ensure, hzero]
    rw [run_lift_bind_of_ok hensure, Option.guard_eq_some_iff.mpr ⟨rfl, by simp [hzero]⟩]
    rfl

theorem takenOffset_pos_iff {unset : Int32} {t : String} : 0 < Cxx.takenOffset unset reader sig t ↔
    ∃ entry ∈ Cxx.entryTaken reader sig t, 0 < Cxx.readHex unset (entry.offset.getD "") := by
  rw [Cxx.takenOffset]
  cases Cxx.entryTaken reader sig t <;> simp

theorem takenOffset_eq_zero_iff {unset : Int32} {t : String} : Cxx.takenOffset unset reader sig t = 0 ↔
    ∀ entry ∈ Cxx.entryTaken reader sig t, Cxx.readHex unset (entry.offset.getD "") = 0 := by
  rw [Cxx.takenOffset]
  cases Cxx.entryTaken reader sig t <;> simp

theorem foundOffset_eq_iff {filePaths : List String} (hoffsets : ∀ path ∈ filePaths, OffsetsGiven dev sig (text path)) :
    (filePaths.findSome? fun path => (foundOffset dev sig (text path)).map (path, ·)) =
      firstMatch dev sig text filePaths ↔
    ∀ path, filePaths.find? (fun path => (offsetOf dev sig (text path)).isSome) = some path →
      Clean dev sig (text path) := by
  have hfound : ∀ path ∈ filePaths, foundOffset dev sig (text path) = none ∨
      foundOffset dev sig (text path) = offsetOf dev sig (text path) := by
    intro path hpath
    cases hn : foundOffset dev sig (text path) with
    | none => exact Or.inl rfl
    | some n =>
      have hclean := clean_of_foundOffset (hoffsets path hpath) hn
      obtain ⟨m, -, hm, hoffset⟩ := foundOffset_of_clean (hoffsets path hpath) hclean
      exact Or.inr (hn.symm.trans (hm.trans hoffset.symm))
  refine (findSome?_eq_iff hfound).trans (forall₂_congr fun path hpath => ⟨fun h => ?_, fun h => ?_⟩)
  · have hsome : (offsetOf dev sig (text path)).isSome = true := by simpa using List.find?_some hpath
    obtain ⟨n, hn⟩ := Option.isSome_iff_exists.mp hsome
    exact clean_of_foundOffset (hoffsets path (List.mem_of_find?_eq_some hpath)) (h.trans hn)
  · obtain ⟨n, -, hn, hoffset⟩ := foundOffset_of_clean (hoffsets path (List.mem_of_find?_eq_some hpath)) h
    exact hn.trans hoffset.symm

theorem takenOffset_eq_iff {filePaths : List String} (hparse : ParsesAlike dev reader)
    (hoffsets : ∀ path ∈ filePaths, OffsetsGiven dev sig (text path))
    (hclean : ∀ path, filePaths.find? (fun path => (offsetOf dev sig (text path)).isSome) = some path →
      Clean dev sig (text path)) :
    Cxx.choice (fun path => Cxx.takenOffset (dev.unsetOffset path) reader sig (text path)) filePaths 0 =
        firstMatch dev sig text filePaths ↔
      SearchesAgree dev reader sig text filePaths := by
  have hfirst : ∀ path, filePaths.find? (fun path => (offsetOf dev sig (text path)).isSome) = some path →
      offsetOf dev sig (text path) = some (Cxx.takenOffset (dev.unsetOffset path) reader sig (text path)) ∧
        0 < Cxx.takenOffset (dev.unsetOffset path) reader sig (text path) :=
    fun path hpath => takenOffset_of_clean hparse (hoffsets path (List.mem_of_find?_eq_some hpath)) (hclean path hpath)
  refine (cxx_choice_eq_iff hfirst).trans ⟨fun ⟨halone, hlast⟩ => ⟨hclean, fun path hpath entry hentry hpos => ?_,
    fun hnone path hpath entry hentry => ?_⟩, fun h => ⟨fun path hpath hpos => ?_, fun hnone => ?_⟩⟩
  · exact halone path hpath (takenOffset_pos_iff.mpr ⟨entry, hentry, hpos⟩)
  · have hzero := hlast hnone
    rw [Option.mem_def.mp hpath] at hzero
    exact takenOffset_eq_zero_iff.mp hzero entry hentry
  · obtain ⟨entry, hentry, hpos⟩ := takenOffset_pos_iff.mp hpos
    exact h.alone path hpath entry hentry hpos
  · cases hpath : filePaths.getLast? with
    | none => rfl
    | some path => exact takenOffset_eq_zero_iff.mpr (h.last hnone path hpath)

/-- For a method other than the empty one, where no output has a zero, the programs differ only by the lines that
    Rust gives a file up for. -/
theorem searchesAgree_iff_clean {filePaths : List String} (hparse : ParsesAlike dev reader) (hsig : sig ≠ "")
    (hnul : ∀ path ∈ filePaths, '\x00' ∉ (text path).toList) : SearchesAgree dev reader sig text filePaths ↔
      ∀ path, filePaths.find? (fun path => (offsetOf dev sig (text path)).isSome) = some path →
        Clean dev sig (text path) := by
  have hnone : ∀ path ∈ filePaths, (offsetOf dev sig (text path)).isNone →
      Cxx.entryTaken reader sig (text path) = none := by
    intro path hpath hoffset
    rw [entryTaken_of_nulFree hparse hsig (hnul path hpath)]
    simpa [offsetOf] using hoffset
  refine ⟨SearchesAgree.clean, fun hclean =>
    ⟨hclean, fun path hpath entry hentry => ?_, fun hfind path hpath entry hentry => ?_⟩⟩
  · have hoffset : (offsetOf dev sig (text path)).isNone = true := by simpa using List.mem_takeWhile_imp hpath
    rw [hnone path (List.takeWhile_subset _ hpath) hoffset] at hentry
    cases hentry
  · have hmem := List.mem_of_getLast? hpath
    rw [hnone path hmem (by simpa using List.find?_eq_none.mp hfind path hmem)] at hentry
    cases hentry

/-- Both programs choose the first file with a line for the method, and the offset there. -/
theorem oatdump_port_iff {probe : ProbeConfig} {bpfProgramPath : String} {taskConfig : Task} {w w' : World}
    (hparse : ParsesAlike dev reader) (hclass : probe.fullyQualifiedClassName = none)
    (hsig : probe.methodSignature = some sig) (hdumps : Dumps dev text probe.filePaths)
    (hoffsets : ∀ path ∈ probe.filePaths, OffsetsGiven dev sig (text path)) :
    ((value? ((resolveByOatdump dev probe bpfProgramPath).run w)).map (fun p => (p.filename, p.offset)) =
        firstMatch dev sig text probe.filePaths ∧
      (value? ((Cxx.resolveProbe dev reader taskConfig probe).run w')).map (fun p => (p.filename, p.offset)) =
        firstMatch dev sig text probe.filePaths) ↔
      SearchesAgree dev reader sig text probe.filePaths := by
  rw [value_resolveByOatdump hsig hdumps, cxx_value_resolveProbe hclass hsig hdumps, foundOffset_eq_iff hoffsets]
  exact ⟨fun ⟨hclean, hcxx⟩ => (takenOffset_eq_iff hparse hoffsets hclean).mp hcxx,
    fun h => ⟨h.clean, (takenOffset_eq_iff hparse hoffsets h.clean).mpr h⟩⟩

end Files

/-! ### Outputs of several lines -/

def methodLine : String := "\x7b\"method\": \"m\", \"offset\": \"0x10\"\x7d"

def otherLine : String := "\x7b\"method\": \"n\", \"offset\": \"8\"\x7d"

/-- A parser that knows two lines. -/
def parseMethodLine (s : String) : Option JsonLine :=
  if s.toList.filter (· ≠ '\r') = methodLine.toList then some ⟨some "m", some "0x10"⟩
  else if s.toList.filter (· ≠ '\r') = otherLine.toList then some ⟨some "n", some "8"⟩
  else none

theorem parse_methodLine : parseMethodLine methodLine = some ⟨some "m", some "0x10"⟩ := by
  rw [parseMethodLine, if_pos (by decide +kernel)]

theorem parse_otherLine : parseMethodLine otherLine = some ⟨some "n", some "8"⟩ := by
  rw [parseMethodLine, if_neg (by decide +kernel), if_pos (by decide +kernel)]

theorem parseMethodLine_eq_some {s : String} {entry : JsonLine} (h : parseMethodLine s = some entry) :
    '\x00' ∉ s.toList ∧ (entry = ⟨some "m", some "0x10"⟩ ∨ entry = ⟨some "n", some "8"⟩) := by
  rw [parseMethodLine] at h
  split_ifs at h with hmethod hother
  · refine ⟨fun hnul => ?_, Or.inl (Option.some.inj h).symm⟩
    have hmem : '\x00' ∈ methodLine.toList := hmethod ▸ List.mem_filter.mpr ⟨hnul, by decide⟩
    exact absurd hmem (by decide)
  · refine ⟨fun hnul => ?_, Or.inr (Option.some.inj h).symm⟩
    have hmem : '\x00' ∈ otherLine.toList := hother ▸ List.mem_filter.mpr ⟨hnul, by decide⟩
    exact absurd hmem (by decide)

def readMethodLine (line : List UInt8) : Option JsonLine := (fromUtf8? line).bind parseMethodLine

def dumpingDevice (text : String → String) : Device :=
  { quietDevice (oneTask []) with
    oatdump := fun _ path => .ok ⟨true, utf8 (text path), []⟩
    parseJson := parseMethodLine }

def oatProbe (filePaths : List String) : ProbeConfig where
  methodSignature := some "m"
  filePaths

/-- The first file has another method only, and a line that is no JSON; the second has the method. -/
def twoOutputs (path : String) : String :=
  if path = "framework.odex" then otherLine ++ "\nwarning\n" ++ otherLine ++ "\n"
  else otherLine ++ "\n" ++ methodLine ++ "\nwarning\n"

theorem parsesAlike_methodLine (text : String → String) : ParsesAlike (dumpingDevice text) readMethodLine where
  common s := by rw [readMethodLine, fromUtf8?_utf8]; rfl
  carriageReturn s := by
    have hstrip : (s ++ "\r").toList.filter (· ≠ '\r') = s.toList.filter (· ≠ '\r') := by simp
    show parseMethodLine _ = parseMethodLine s
    rw [parseMethodLine, parseMethodLine, hstrip]
  nul s h := by
    cases hentry : (dumpingDevice text).parseJson s with
    | none => rfl
    | some entry => exact absurd h (parseMethodLine_eq_some hentry).1

theorem dumps_methodLine (text : String → String) (filePaths : List String) : Dumps (dumpingDevice text) text filePaths :=
  fun _ _ _ => ⟨[], rfl⟩

theorem offsetsGiven_methodLine (text : String → String) (path : String) :
    OffsetsGiven (dumpingDevice text) "m" (text path) := by
  intro line _ entry hentry hmethod
  rcases (parseMethodLine_eq_some hentry).2 with rfl | rfl
  · exact ⟨"0x10", 16, rfl, ['1', '0'], Or.inr (by decide), by decide, by decide, by decide⟩
  · exact absurd hmethod (by decide)

theorem oatdump_port_of_twoFiles :
    (value? ((resolveByOatdump (dumpingDevice twoOutputs) (oatProbe ["framework.odex", "services.odex"]) "").run
        { interfaces := .empty })).map (fun p => (p.filename, p.offset)) =
      firstMatch (dumpingDevice twoOutputs) "m" twoOutputs ["framework.odex", "services.odex"] ∧
    (value? ((Cxx.resolveProbe (dumpingDevice twoOutputs) readMethodLine {}
        (oatProbe ["framework.odex", "services.odex"])).run { interfaces := .empty })).map
        (fun p => (p.filename, p.offset)) =
      firstMatch (dumpingDevice twoOutputs) "m" twoOutputs ["framework.odex", "services.odex"] := by
  refine (@oatdump_port_iff _ _ _ _ (oatProbe ["framework.odex", "services.odex"]) _ _ _ _ (parsesAlike_methodLine _) rfl rfl
    (dumps_methodLine _ _) fun path _ => offsetsGiven_methodLine _ path).mpr ?_
  refine (searchesAgree_iff_clean (parsesAlike_methodLine _) (by decide) ?_).mpr fun path hpath => ?_
  · exact List.forall_mem_cons.mpr ⟨by decide +kernel, List.forall_mem_singleton.mpr (by decide +kernel)⟩
  · have hfirst : (oatProbe ["framework.odex", "services.odex"]).filePaths.find? (fun path =>
        (offsetOf (dumpingDevice twoOutputs) "m" (twoOutputs path)).isSome) = some "services.odex" := by decide +kernel
    obtain rfl := Option.some.inj (hpath.symm.trans hfirst)
    exact ⟨[otherLine], methodLine, ["warning"], by decide +kernel,
      List.forall_mem_singleton.mpr ⟨_, parse_otherLine, rfl⟩, _, parse_methodLine, rfl⟩

/-- A line before the method that is no JSON: C++ finds the method, and Rust does not. -/
theorem not_oatdump_port_of_warning :
    ¬(value? ((resolveByOatdump (dumpingDevice fun _ => "warning\n" ++ methodLine) (oatProbe ["services.odex"]) "").run
          { interfaces := .empty })).map (fun p => (p.filename, p.offset)) =
        firstMatch (dumpingDevice fun _ => "warning\n" ++ methodLine) "m" (fun _ => "warning\n" ++ methodLine)
          ["services.odex"] ∧
    (value? ((Cxx.resolveProbe (dumpingDevice fun _ => "warning\n" ++ methodLine) readMethodLine {}
        (oatProbe ["services.odex"])).run { interfaces := .empty })).map (fun p => (p.filename, p.offset)) =
      some ("services.odex", 16) :=
  ⟨by decide +kernel, by decide +kernel⟩

end UprobeStats
