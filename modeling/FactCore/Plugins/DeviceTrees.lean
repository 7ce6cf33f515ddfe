import Mathlib.Data.List.Basic
import FactCore.Lib.Bytes
import FactCore.Lib.Itertools
import FactCore.Lib.MapM
import FactCore.Lib.PyText
import FactCore.Lib.Utf8
import FactCore.Lib.WhileLoop
import FactCore.Plugins.StructureBlock

/-!
# The search for device trees

`dump_device_trees` and `analyze_device_tree` of
`src/src/plugins/analysis/device_tree/internal/device_tree_utils.py`: the magic of a device tree is
searched in a file. Behind each one that is found a header is read, and the bytes that it announces
are given to the device tree compiler. The search goes on 40 bytes behind the magic.

Results:
1. `exists_parseDtbHeader_iff`: which headers can be read.
2. `dumpDeviceTrees_of_long`, `dumpDeviceTrees_of_short`: what the search gives.
3. `scanExact_iff`: when it gives the device trees of the file.
-/

namespace FactCore

/-! ## 1. The code -/

/-- `MAGIC`. -/
def dtbMagic : List UInt8 := [0xD0, 0x0D, 0xFE, 0xED]

/-- `HEADER_SIZE`. -/
def headerSize : Nat := 40

/-- A `DeviceTreeHeader`. -/
structure DeviceTreeHeader where
  size : Nat
  structBlockOffset : Nat
  stringsBlockOffset : Nat
  memoryMapOffset : Nat
  version : Nat
  oldestCompatibleVersion : Nat
  bootCpuId : Nat
  stringsBlockSize : Nat
  structBlockSize : Nat
  deriving DecidableEq, Repr

/-- The exceptions of the search: a header without all of its arguments. -/
inductive DeviceTreeException
  | typeError
  deriving DecidableEq, Repr

/-- `DeviceTreeHeader(*args)`. -/
def newDeviceTreeHeader : List Nat → Except DeviceTreeException DeviceTreeHeader
  | [size, structBlockOffset, stringsBlockOffset, memoryMapOffset, version,
      oldestCompatibleVersion, bootCpuId, stringsBlockSize, structBlockSize] =>
    .ok ⟨size, structBlockOffset, stringsBlockOffset, memoryMapOffset, version,
      oldestCompatibleVersion, bootCpuId, stringsBlockSize, structBlockSize⟩
  | _ => .error .typeError

/-- `parse_dtb_header`. -/
def parseDtbHeader (chunker : Chunker UInt8) (raw : List UInt8) :
    Except DeviceTreeException DeviceTreeHeader :=
  newDeviceTreeHeader ((chunker.chunked (slice raw 4 headerSize) 4).map bytesToInt)

/-- `header_has_illegal_values`. -/
def headerHasIllegalValues (header : DeviceTreeHeader) (maxSize : Nat) : Bool :=
  let values := [header.structBlockOffset, header.stringsBlockOffset, header.structBlockSize,
    header.stringsBlockSize]
  decide (header.version > 20) ||
    values.any (fun n => decide (n > maxSize ∨ n > header.size)) || decide (header.size > maxSize)

/-- The device tree compiler: its output for a file, or `none` when it exits with an error. -/
abbrev Dtc := List UInt8 → Option (List UInt8)

/-- `convert_device_tree_to_str`, of the bytes in the file. -/
def convertDeviceTreeToStr (dtc : Dtc) (deviceTree : List UInt8) : Option String :=
  (dtc deviceTree).map fun stdout => strip (decodeReplace stdout)

/-- The dict of `_result_to_json`, with the offset once it is set. -/
structure DeviceTreeJson where
  header : DeviceTreeHeader
  deviceTree : String
  model : Option String
  description : Option String
  offset : Option Nat
  deriving DecidableEq, Repr

/-- `_result_to_json`. -/
def resultToJson (header : DeviceTreeHeader) (stringRepresentation : String)
    (model description : Option String) : DeviceTreeJson :=
  ⟨header, stringRepresentation, model, description, none⟩

/-- `analyze_device_tree`. -/
def analyzeDeviceTree (chunker : Chunker UInt8) (dtc : Dtc) (raw : List UInt8) :
    Except DeviceTreeException (Option DeviceTreeJson) := do
  let header ← parseDtbHeader chunker raw
  if headerHasIllegalValues header raw.length then .ok none
  else
    let deviceTree := slice raw 0 header.size
    let stringsBlock := slice deviceTree header.stringsBlockOffset
      (header.stringsBlockOffset + header.stringsBlockSize : Nat)
    let structureBlock := slice deviceTree header.structBlockOffset
      (header.structBlockOffset + header.structBlockSize : Nat)
    let found := getModelOrDescription
      (structureBlockProperties structureBlock (stringsByOffset stringsBlock))
    match convertDeviceTreeToStr dtc deviceTree with
    | none => .ok none
    | some stringRepresentation =>
      if stringRepresentation = "" then .ok none
      else .ok (some (resultToJson header stringRepresentation found.2 found.1))

/-- The variables of `dump_device_trees`. -/
structure DumpState where
  raw : List UInt8
  totalOffset : Nat
  dumpedDeviceTrees : List DeviceTreeJson

/-- The result at an offset, if there is one, is added. -/
def appendResult (dumpedDeviceTrees : List DeviceTreeJson) (totalOffset : Nat) :
    Option DeviceTreeJson → List DeviceTreeJson
  | none => dumpedDeviceTrees
  | some json => dumpedDeviceTrees ++ [{ json with offset := some totalOffset }]

/-- One round of `dump_device_trees`. -/
def dumpRound (chunker : Chunker UInt8) (dtc : Dtc) (s : DumpState) :
    Except DeviceTreeException (Round DumpState (List DeviceTreeJson)) :=
  match findSub dtbMagic s.raw with
  | none => .ok (.done s.dumpedDeviceTrees)
  | some offset => do
    let raw := s.raw.drop offset
    let totalOffset := s.totalOffset + offset
    let jsonResult ← analyzeDeviceTree chunker dtc raw
    .ok (.next ⟨raw.drop headerSize, totalOffset + headerSize,
      appendResult s.dumpedDeviceTrees totalOffset jsonResult⟩)

/-- `dump_device_trees`, with so many rounds. -/
def dumpDeviceTrees (chunker : Chunker UInt8) (dtc : Dtc) (fuel : Nat) (raw : List UInt8) :
    Option (Except DeviceTreeException (List DeviceTreeJson)) :=
  whileLoop (dumpRound chunker dtc) fuel ⟨raw, 0, []⟩

/-! ## 2. Device trees in a file -/

/-- A device tree stands at the offset: the magic, a complete header with legal values, and bytes
that the compiler accepts. -/
def DeviceTreeAt (chunker : Chunker UInt8) (dtc : Dtc) (raw : List UInt8) (offset : Nat) : Prop :=
  OccursAt dtbMagic raw offset ∧ offset + headerSize ≤ raw.length ∧
    ∃ header, parseDtbHeader chunker (raw.drop offset) = .ok header ∧
      headerHasIllegalValues header (raw.length - offset) = false ∧
        (dtc ((raw.drop offset).take header.size)).isSome

/-- The search ends without an exception. It gives each device tree once, in the order of the
offsets, with its header. -/
def ScanExact (chunker : Chunker UInt8) (dtc : Dtc) (raw : List UInt8) : Prop :=
  ∃ results : List DeviceTreeJson,
    (∀ fuel, raw.length < fuel → dumpDeviceTrees chunker dtc fuel raw = some (.ok results)) ∧
    ∃ offsets : List Nat, results.map DeviceTreeJson.offset = offsets.map some ∧
      offsets.Pairwise (· < ·) ∧ (∀ offset, offset ∈ offsets ↔ DeviceTreeAt chunker dtc raw offset) ∧
      ∀ json ∈ results, ∀ offset ∈ json.offset,
        parseDtbHeader chunker (raw.drop offset) = .ok json.header

/-- The first magic from a position on. -/
def NextMagic (raw : List UInt8) (start offset : Nat) : Prop :=
  start ≤ offset ∧ OccursAt dtbMagic raw offset ∧
    ∀ j, start ≤ j → j < offset → ¬ OccursAt dtbMagic raw j

/-- The magics that are found from a position on when a header is skipped behind each. -/
inductive FoundFrom (raw : List UInt8) : Nat → Nat → Prop
  | here {start offset : Nat} (h : NextMagic raw start offset) : FoundFrom raw start offset
  | later {start first offset : Nat} (h : NextMagic raw start first)
      (hrest : FoundFrom raw (first + headerSize) offset) : FoundFrom raw start offset

/-- Something is printed for the bytes behind the magic, with a header that may be cut off. -/
def Printed (chunker : Chunker UInt8) (dtc : Dtc) (raw : List UInt8) (offset : Nat) : Prop :=
  ∃ header, parseDtbHeader chunker (raw.drop offset) = .ok header ∧
    headerHasIllegalValues header (raw.length - offset) = false ∧
      ∃ s, convertDeviceTreeToStr dtc ((raw.drop offset).take header.size) = some s ∧ s ≠ ""

/-! ## 3. Headers -/

section Header
variable {chunker : Chunker UInt8} {dtc : Dtc} {raw : List UInt8} {header : DeviceTreeHeader}

theorem exists_newDeviceTreeHeader_iff {args : List Nat} :
    (∃ header, newDeviceTreeHeader args = .ok header) ↔ args.length = 9 := by
  constructor
  · rintro ⟨header, h⟩
    unfold newDeviceTreeHeader at h
    split at h
    · rfl
    · cases h
  · intro h
    match args, h with
    | [_, _, _, _, _, _, _, _, _], _ => exact ⟨_, rfl⟩

/-- A header can be read if only bytes of its last value are missing. -/
theorem exists_parseDtbHeader_iff :
    (∃ header, parseDtbHeader chunker raw = .ok header) ↔ 37 ≤ raw.length := by
  have hlen : (slice raw 4 headerSize).length = min 40 raw.length - 4 := by
    rw [slice_natCast, List.length_drop, List.length_take]
    rfl
  rw [parseDtbHeader, chunker.chunked_eq _ 4 (by decide), exists_newDeviceTreeHeader_iff,
    List.length_map, length_partsOf, hlen]
  omega

theorem analyzeDeviceTree_of_short (h : raw.length < 37) :
    analyzeDeviceTree chunker dtc raw = .error .typeError := by
  cases hparse : parseDtbHeader chunker raw with
  | ok header => exact absurd (exists_parseDtbHeader_iff.mp ⟨header, hparse⟩) (by omega)
  | error e =>
    rw [analyzeDeviceTree, hparse]
    cases e
    rfl

/-- With a header that is read, there is a result exactly if something is printed. -/
theorem analyzeDeviceTree_of_header (chunker : Chunker UInt8) (dtc : Dtc)
    (h : parseDtbHeader chunker raw = .ok header) :
    ∃ result, analyzeDeviceTree chunker dtc raw = .ok result ∧ (∀ json ∈ result, json.header = header) ∧
      (result.isSome ↔ headerHasIllegalValues header raw.length = false ∧
        ∃ s, convertDeviceTreeToStr dtc (raw.take header.size) = some s ∧ s ≠ "") := by
  have htree : slice raw 0 header.size = raw.take header.size := slice_natCast raw 0 header.size
  simp only [analyzeDeviceTree, h, bind, Except.bind, htree]
  cases hlegal : headerHasIllegalValues header raw.length with
  | true => exact ⟨none, rfl, by simp, by simp⟩
  | false =>
    cases hstr : convertDeviceTreeToStr dtc (raw.take header.size) with
    | none => exact ⟨none, rfl, by simp, by simp⟩
    | some s =>
      by_cases hs : s = ""
      · exact ⟨none, by simp [hs], by simp, by simp [hs]⟩
      · refine ⟨some _, if_neg hs, fun json hjson => ?_, by simp [hs]⟩
        rw [← Option.some.inj hjson]
        rfl

end Header

/-! ## 4. The search -/

section Search
variable {chunker : Chunker UInt8} {dtc : Dtc} {raw : List UInt8} {start first offset fuel : Nat}
  {dumped : List DeviceTreeJson}

theorem occursAt_drop {i : Nat} :
    OccursAt dtbMagic (raw.drop start) i ↔ OccursAt dtbMagic raw (start + i) := by
  rw [OccursAt, OccursAt, List.drop_drop]

theorem findSub_dtbMagic_iff : findSub dtbMagic (raw.drop start) = some offset ↔
    NextMagic raw start (start + offset) := by
  rw [findSub_eq_some_iff (by decide), occursAt_drop, NextMagic]
  constructor
  · intro hfind
    obtain ⟨hat, hfirst⟩ := hfind
    refine ⟨Nat.le_add_right _ _, hat, fun j hle hlt hj => hfirst (j - start) (by omega) ?_⟩
    rwa [occursAt_drop, Nat.add_sub_cancel' hle]
  · intro hnext
    obtain ⟨-, hat, hfirst⟩ := hnext
    exact ⟨hat, fun j hj hoccurs => hfirst (start + j) (by omega) (by omega)
      (occursAt_drop.mp hoccurs)⟩

theorem NextMagic.eq (h : NextMagic raw start first) (h' : NextMagic raw start offset) :
    first = offset := by
  rcases Nat.lt_trichotomy first offset with hlt | heq | hlt
  · exact absurd h.2.1 (h'.2.2 first h.1 hlt)
  · exact heq
  · exact absurd h'.2.1 (h.2.2 offset h'.1 hlt)

theorem NextMagic.lt (h : NextMagic raw start offset) : offset + 4 ≤ raw.length :=
  OccursAt.length_le h.2.1 (by decide)

/-- Behind a magic and its header less is left. -/
theorem NextMagic.lt_of_skip (h : NextMagic raw start offset)
    (hfuel : raw.length - start < fuel + 1) : raw.length - (offset + headerSize) < fuel := by
  have hle := h.1
  have hlt := h.lt
  have hsize : headerSize = 40 := rfl
  omega

theorem foundFrom_iff (h : NextMagic raw start first) :
    FoundFrom raw start offset ↔ offset = first ∨ FoundFrom raw (first + headerSize) offset := by
  constructor
  · intro hfound
    cases hfound with
    | here h' => exact .inl (h'.eq h)
    | later h' hrest => exact .inr (h.eq h' ▸ hrest)
  · rintro (rfl | hrest)
    · exact .here h
    · exact .later h hrest

theorem FoundFrom.le (h : FoundFrom raw start offset) : start ≤ offset := by
  induction h with
  | here h => exact h.1
  | later h _ ih =>
    have hle := h.1
    omega

theorem FoundFrom.occursAt (h : FoundFrom raw start offset) : OccursAt dtbMagic raw offset := by
  induction h with
  | here h => exact h.2.1
  | later _ _ ih => exact ih

/-- One round, from a position on. -/
theorem dumpRound_of_nextMagic (h : NextMagic raw start offset) :
    dumpRound chunker dtc ⟨raw.drop start, start, dumped⟩ =
      (analyzeDeviceTree chunker dtc (raw.drop offset)).map fun jsonResult =>
        .next ⟨raw.drop (offset + headerSize), offset + headerSize,
          appendResult dumped offset jsonResult⟩ := by
  obtain ⟨n, rfl⟩ := Nat.exists_eq_add_of_le h.1
  rw [dumpRound, findSub_dtbMagic_iff.mpr h]
  cases hresult : analyzeDeviceTree chunker dtc (raw.drop (start + n)) <;>
    simp [List.drop_drop, hresult, bind, Except.bind, Except.map]

/-- The search from a position on ends when no magic is left. -/
theorem dumpRound_of_none (h : ∀ offset, ¬ NextMagic raw start offset) :
    dumpRound chunker dtc ⟨raw.drop start, start, dumped⟩ = .ok (.done dumped) := by
  rw [dumpRound]
  cases hfind : findSub dtbMagic (raw.drop start) with
  | none => rfl
  | some offset => exact absurd (findSub_dtbMagic_iff.mp hfind) (h _)

/-- A magic at the end of the file raises an exception. -/
theorem whileLoop_of_short (h : FoundFrom raw start offset) (hshort : raw.length < offset + 37)
    (hfuel : raw.length - start < fuel) :
    whileLoop (dumpRound chunker dtc) fuel ⟨raw.drop start, start, dumped⟩ = some (.error .typeError) := by
  have herror : ∀ {start offset fuel dumped}, NextMagic raw start offset →
      raw.length < offset + 37 → whileLoop (dumpRound chunker dtc) (fuel + 1)
        ⟨raw.drop start, start, dumped⟩ = some (.error .typeError) := by
    intro start offset fuel dumped hnext hshort
    rw [whileLoop, dumpRound_of_nextMagic hnext, analyzeDeviceTree_of_short]
    · rfl
    · rw [List.length_drop]
      omega
  induction h generalizing fuel dumped with
  | here hnext =>
    obtain ⟨fuel, rfl⟩ := Nat.exists_eq_succ_of_ne_zero (Nat.ne_zero_of_lt hfuel)
    exact herror hnext hshort
  | @later start first offset hnext hrest ih =>
    obtain ⟨fuel, rfl⟩ := Nat.exists_eq_succ_of_ne_zero (Nat.ne_zero_of_lt hfuel)
    rcases Nat.lt_or_ge raw.length (first + 37) with hlt | hge
    · exact herror hnext hlt
    · obtain ⟨header, hheader⟩ := exists_parseDtbHeader_iff.mpr
        (show 37 ≤ (raw.drop first).length by rw [List.length_drop]; omega)
      obtain ⟨result, hresult, -⟩ := analyzeDeviceTree_of_header chunker dtc hheader
      rw [whileLoop, dumpRound_of_nextMagic hnext, hresult]
      exact ih hshort (hnext.lt_of_skip hfuel)

/-- The results of the search from a position on. -/
structure ResultsFrom (chunker : Chunker UInt8) (dtc : Dtc) (raw : List UInt8) (start : Nat)
    (results : List DeviceTreeJson) (offsets : List Nat) : Prop where
  offsets_eq : results.map DeviceTreeJson.offset = offsets.map some
  increasing : offsets.Pairwise (· < ·)
  mem_iff : ∀ offset, offset ∈ offsets ↔ FoundFrom raw start offset ∧ Printed chunker dtc raw offset
  header : ∀ json ∈ results, ∀ offset ∈ json.offset,
    parseDtbHeader chunker (raw.drop offset) = .ok json.header

/-- A magic for which nothing is printed. -/
theorem ResultsFrom.skip {results : List DeviceTreeJson} {offsets : List Nat}
    (h : ResultsFrom chunker dtc raw (first + headerSize) results offsets)
    (hnext : NextMagic raw start first)
    (hnot : ¬ Printed chunker dtc raw first) : ResultsFrom chunker dtc raw start results offsets := by
  refine ⟨h.offsets_eq, h.increasing, fun offset => ?_, h.header⟩
  rw [h.mem_iff, foundFrom_iff hnext]
  constructor
  · exact fun hfound => ⟨.inr hfound.1, hfound.2⟩
  · intro hoffset
    obtain ⟨rfl | hfound, hprinted⟩ := hoffset
    · exact absurd hprinted hnot
    · exact ⟨hfound, hprinted⟩

/-- A magic with a result. -/
theorem ResultsFrom.cons {results : List DeviceTreeJson} {offsets : List Nat} {json : DeviceTreeJson}
    (h : ResultsFrom chunker dtc raw (first + headerSize) results offsets)
    (hnext : NextMagic raw start first)
    (hprinted : Printed chunker dtc raw first)
    (hheader : parseDtbHeader chunker (raw.drop first) = .ok json.header) :
    ResultsFrom chunker dtc raw start ({ json with offset := some first } :: results)
      (first :: offsets) where
  offsets_eq := by rw [List.map_cons, List.map_cons, h.offsets_eq]
  increasing := by
    refine List.pairwise_cons.mpr ⟨fun offset hmem => ?_, h.increasing⟩
    have hle := ((h.mem_iff offset).mp hmem).1.le
    have hsize : headerSize = 40 := rfl
    omega
  mem_iff offset := by
    rw [List.mem_cons, h.mem_iff, foundFrom_iff hnext]
    constructor
    · rintro (rfl | ⟨hfound, hp⟩)
      · exact ⟨.inl rfl, hprinted⟩
      · exact ⟨.inr hfound, hp⟩
    · rintro ⟨rfl | hfound, hp⟩
      · exact .inl rfl
      · exact .inr ⟨hfound, hp⟩
  header := by
    refine List.forall_mem_cons.mpr ⟨fun offset hoffset => ?_, h.header⟩
    rw [← Option.some.inj hoffset]
    exact hheader

/-- Without such a magic the search ends with its results. -/
theorem whileLoop_of_long (chunker : Chunker UInt8) (dtc : Dtc) (dumped : List DeviceTreeJson)
    (hlong : ∀ offset, FoundFrom raw start offset → offset + 37 ≤ raw.length)
    (hfuel : raw.length - start < fuel) :
    ∃ results offsets, ResultsFrom chunker dtc raw start results offsets ∧
      whileLoop (dumpRound chunker dtc) fuel ⟨raw.drop start, start, dumped⟩ =
        some (.ok (dumped ++ results)) := by
  induction fuel generalizing start dumped with
  | zero => exact absurd hfuel (Nat.not_lt_zero _)
  | succ fuel ih =>
    by_cases hmagic : ∃ offset, NextMagic raw start offset
    · obtain ⟨first, hnext⟩ := hmagic
      have hheader : 37 ≤ (raw.drop first).length := by
        have hfirst := hlong first (.here hnext)
        rw [List.length_drop]
        omega
      obtain ⟨header, hparse⟩ := exists_parseDtbHeader_iff.mpr hheader
      obtain ⟨result, hresult, hjson, hsome⟩ := analyzeDeviceTree_of_header chunker dtc hparse
      have hbehind : ∀ offset, FoundFrom raw (first + headerSize) offset →
          offset + 37 ≤ raw.length := fun offset hfound => hlong offset (.later hnext hfound)
      obtain ⟨results, offsets, hrest, hloop⟩ :=
        ih (appendResult dumped first result) hbehind (hnext.lt_of_skip hfuel)
      have hprinted : result.isSome ↔ Printed chunker dtc raw first := by
        rw [hsome, List.length_drop, Printed]
        simp only [hparse, Except.ok.injEq, exists_eq_left']
      have hrun : whileLoop (dumpRound chunker dtc) (fuel + 1) ⟨raw.drop start, start, dumped⟩ =
          some (.ok (appendResult dumped first result ++ results)) := by
        rw [whileLoop, dumpRound_of_nextMagic hnext, hresult]
        exact hloop
      rw [hrun]
      cases result with
      | none =>
        have hnot : ¬ Printed chunker dtc raw first := fun h => by cases hprinted.mpr h
        exact ⟨results, offsets, hrest.skip hnext hnot, rfl⟩
      | some json =>
        have hheader : parseDtbHeader chunker (raw.drop first) = .ok json.header := by
          rw [hparse, hjson json rfl]
        refine ⟨_, _, hrest.cons hnext (hprinted.mp rfl) hheader, ?_⟩
        rw [appendResult, List.append_assoc, List.singleton_append]
    · have hno : ∀ offset, ¬ FoundFrom raw start offset := by
        intro offset hfound
        cases hfound with
        | here h => exact hmagic ⟨_, h⟩
        | later h _ => exact hmagic ⟨_, h⟩
      refine ⟨[], [], ⟨rfl, .nil, fun offset => ?_, fun json h => (by cases h)⟩, ?_⟩
      · exact iff_of_false List.not_mem_nil fun h => hno offset h.1
      · rw [whileLoop, dumpRound_of_none fun offset h => hmagic ⟨offset, h⟩, List.append_nil]

end Search

/-! ## 5. The device trees of a file -/

section Scan
variable {chunker : Chunker UInt8} {dtc : Dtc} {raw : List UInt8}

theorem dumpDeviceTrees_of_short (chunker : Chunker UInt8) (dtc : Dtc) {offset fuel : Nat}
    (h : FoundFrom raw 0 offset) (hshort : raw.length < offset + 37) (hfuel : raw.length < fuel) :
    dumpDeviceTrees chunker dtc fuel raw = some (.error .typeError) :=
  whileLoop_of_short h hshort hfuel

theorem dumpDeviceTrees_of_long (chunker : Chunker UInt8) (dtc : Dtc)
    (hlong : ∀ offset, FoundFrom raw 0 offset → offset + 37 ≤ raw.length) :
    ∃ results offsets, ResultsFrom chunker dtc raw 0 results offsets ∧
      ∀ fuel, raw.length < fuel → dumpDeviceTrees chunker dtc fuel raw = some (.ok results) := by
  obtain ⟨results, offsets, hresults, hloop⟩ :=
    whileLoop_of_long chunker dtc [] hlong (Nat.lt_succ_self raw.length)
  exact ⟨results, offsets, hresults, fun fuel hfuel => WhileLoop.whileLoop_mono hloop hfuel⟩

/-- The search gives the device trees of the file exactly if a magic that is found near the end of
the file has at least 37 bytes and prints nothing, and each device tree is found and printed. -/
theorem scanExact_iff : ScanExact chunker dtc raw ↔
    (∀ offset, FoundFrom raw 0 offset → raw.length < offset + headerSize →
      offset + 37 ≤ raw.length ∧ ¬ Printed chunker dtc raw offset) ∧
    ∀ offset, DeviceTreeAt chunker dtc raw offset →
      FoundFrom raw 0 offset ∧ Printed chunker dtc raw offset := by
  constructor
  · intro hscan
    obtain ⟨results, hrun, offsets, hoffsets, -, hexact, -⟩ := hscan
    have hlong : ∀ offset, FoundFrom raw 0 offset → offset + 37 ≤ raw.length := by
      intro offset hfound
      by_contra hshort
      have herror := dumpDeviceTrees_of_short chunker dtc hfound (Nat.lt_of_not_le hshort)
        (Nat.lt_succ_self _)
      rw [hrun _ (Nat.lt_succ_self _)] at herror
      cases herror
    obtain ⟨results', offsets', hresults, hrun'⟩ := dumpDeviceTrees_of_long chunker dtc hlong
    have hsame := (hrun _ (Nat.lt_succ_self _)).symm.trans (hrun' _ (Nat.lt_succ_self _))
    obtain rfl : results = results' := Except.ok.inj (Option.some.inj hsame)
    obtain rfl : offsets = offsets' :=
      (Option.some_injective Nat).list_map (hoffsets.symm.trans hresults.offsets_eq)
    refine ⟨fun offset hfound hshort => ⟨hlong offset hfound, fun hprinted => ?_⟩, fun offset hat =>
      (hresults.mem_iff offset).mp ((hexact offset).mpr hat)⟩
    have hat := (hexact offset).mp ((hresults.mem_iff offset).mpr ⟨hfound, hprinted⟩)
    have hend := hat.2.1
    omega
  · intro hmagics
    obtain ⟨hend, htrees⟩ := hmagics
    have hlong : ∀ offset, FoundFrom raw 0 offset → offset + 37 ≤ raw.length := by
      intro offset hfound
      by_cases hshort : raw.length < offset + headerSize
      · exact (hend offset hfound hshort).1
      · have hsize : headerSize = 40 := rfl
        omega
    obtain ⟨results, offsets, hresults, hrun⟩ := dumpDeviceTrees_of_long chunker dtc hlong
    refine ⟨results, hrun, offsets, hresults.offsets_eq, hresults.increasing, fun offset => ?_,
      hresults.header⟩
    rw [hresults.mem_iff]
    constructor
    · intro hoffset
      obtain ⟨hfound, hprinted⟩ := hoffset
      have hcomplete : offset + headerSize ≤ raw.length :=
        Nat.le_of_not_lt fun hshort => (hend offset hfound hshort).2 hprinted
      obtain ⟨header, hparse, hlegal, s, hstr, -⟩ := hprinted
      refine ⟨hfound.occursAt, hcomplete, header, hparse, hlegal, ?_⟩
      rw [← Option.isSome_map]
      exact Option.isSome_of_eq_some hstr
    · exact htrees offset

/-- A file that ends with the magic. -/
theorem magicAtEnd_raises : ¬ ScanExact .exact (fun _ => none) dtbMagic := by
  intro hscan
  obtain ⟨results, hrun, -⟩ := hscan
  have hraise : dumpDeviceTrees .exact (fun _ => none) 5 dtbMagic = some (.error .typeError) := rfl
  rw [hrun 5 (by decide)] at hraise
  cases hraise

end Scan

end FactCore
