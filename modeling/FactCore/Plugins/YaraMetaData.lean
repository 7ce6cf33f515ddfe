import FactCore.Lib.Decimal
import FactCore.Plugins.YaraPluginBase

/-!
# The meta data of YARA rules

`_parse_meta_data` reads the meta items of a rule, which are printed between brackets with commas
between them. Nothing marks a comma in a value, and the backslashes in front of other characters
are left in it. What stands between the brackets is taken to be as long as possible, so that it
can go on in the path.

Results:
1. `HoldsItems`, `ItemsAgree`: meta data that are certain items.
2. `readMetaValue_print_iff`, `textFits_of_mem_assignments`: the values that can be read.
3. `assignments_append`: what the printed items assign; `get?_readEntries_iff`: which of them are
   read as what they are.
4. `holdsItems_readMeta_iff`: when the meta items of a rule are read as what they are.
-/

namespace FactCore

/-! ## 1. Items -/

/-- The key and the value of an item. -/
def readItem (item : List Char) : Option (String × MetaValue) :=
  (splitItem (String.ofList item)).map fun e => (e.1, readMetaValue e.2)

def assignments (text : List Char) : List (String × MetaValue) :=
  (text.splitOn ',').filterMap readItem

/-- What a value is read as. -/
def PrintedValue.read : PrintedValue → MetaValue
  | .boolean b => .bool b
  | .integer n => .str (toString n)
  | .text s _ => .str s

/-- A text without a comma, and without a quote at its ends. -/
def TextFits (s : String) : Prop :=
  ',' ∉ s.toList ∧ s.toList.head? ≠ some '"' ∧ s.toList.getLast? ≠ some '"'

def PrintedValue.Fits : PrintedValue → Prop
  | .text s _ => TextFits s
  | _ => True

/-- `yara` prints all characters of a text as they are. -/
def PrintedValue.Kept (yara : YaraPrinter) : PrintedValue → Prop
  | .text s _ => ∀ c ∈ s.toList, yara.escape c = [c]
  | _ => True

def MetaItem.entry (item : MetaItem) : String × MetaValue := (item.key, item.value.read)

/-- What a printed item is read as. -/
def MetaItem.readEntry (yara : YaraPrinter) (item : MetaItem) : String × MetaValue :=
  (item.key, readMetaValue (item.value.print yara))

/-- The meta data are these items. -/
structure HoldsItems (metaData : Dict String MetaValue) (items : List MetaItem) : Prop where
  values : ∀ item ∈ items, metaData.get? item.key = some item.value.read
  keys : ∀ key ∈ metaData, key ∈ items.map MetaItem.key

/-- The keys are among the others, with the same values. -/
structure ItemsAgree (items others : List MetaItem) : Prop where
  keys : ∀ item ∈ items, item.key ∈ others.map MetaItem.key
  values : ∀ item ∈ items, ∀ other ∈ others, item.key = other.key →
    item.value.read = other.value.read

section MetaItems
variable {d : Dict String MetaValue} {items others : List MetaItem} {item : MetaItem}
  {value other : PrintedValue} {yara : YaraPrinter}

theorem parseMetaData_ofList (text : List Char) :
    parseMetaData (String.ofList text) = .ofList (assignments text) := by
  rw [parseMetaData, splitAtChar, String.toList_ofList, List.foldl_map, assignments, Dict.ofList,
    Dict.setAll, List.foldl_filterMap]
  refine congrArg (fun f => List.foldl f ∅ (text.splitOn ','))
    (funext fun d => funext fun item => ?_)
  rw [readItem]
  cases splitItem (String.ofList item) <;> rfl

theorem itemsAgree_of_holdsItems (h : HoldsItems d items) (hothers : HoldsItems d others) :
    ItemsAgree items others := by
  constructor
  · intro item hitem
    exact hothers.keys item.key (Dict.mem_of_get? (h.values item hitem))
  · intro item hitem other hother hkey
    have hvalue := h.values item hitem
    rw [hkey, hothers.values other hother] at hvalue
    exact (Option.some.inj hvalue).symm

theorem HoldsItems.congr (h : HoldsItems d items) (hagree : ItemsAgree items others)
    (hagree' : ItemsAgree others items) : HoldsItems d others := by
  constructor
  · intro other hother
    obtain ⟨item, hitem, hkey⟩ := List.mem_map.mp (hagree'.keys other hother)
    rw [← hkey, h.values item hitem, hagree.values item hitem other hother hkey]
  · intro key hkey
    obtain ⟨item, hitem, rfl⟩ := List.mem_map.mp (h.keys key hkey)
    exact hagree.keys item hitem

/-! ## 2. Values -/

theorem escape_ne_nil (yara : YaraPrinter) (c : Char) : yara.escape c ≠ [] := by
  rcases yara.escaped c with hkept | ⟨rest, -, hescape, -⟩
  · rw [hkept]
    exact List.cons_ne_nil _ _
  · rw [hescape]
    exact List.cons_ne_nil _ _

/-- A character that escaping does not bring in. -/
theorem eq_of_mem_escape {c d : Char} (hword : d.isAlphanum = false) (hslash : d ≠ '\\')
    (h : d ∈ yara.escape c) : d = c := by
  rcases yara.escaped c with hkept | ⟨rest, -, hescape, hrest⟩
  · rw [hkept] at h
    exact List.mem_singleton.mp h
  · rw [hescape] at h
    rcases hrest d ((List.mem_cons.mp h).resolve_left hslash) with heq | heq | halnum
    · exact heq
    · exact absurd heq hslash
    · rw [hword] at halnum
      cases halnum

theorem mem_of_mem_printText {c : Char} {s : String} (hword : c.isAlphanum = false)
    (hslash : c ≠ '\\') (h : c ∈ (yara.printText s).toList) : c ∈ s.toList := by
  rw [YaraPrinter.printText, String.toList_ofList] at h
  obtain ⟨d, hd, hc⟩ := List.mem_flatMap.mp h
  rwa [eq_of_mem_escape hword hslash hc]

theorem head?_of_head?_escape {cs : List Char}
    (h : (cs.flatMap yara.escape).head? = some '"') : cs.head? = some '"' := by
  cases cs with
  | nil => cases h
  | cons c cs =>
    rw [List.flatMap_cons, List.head?_append_of_ne_nil _ (escape_ne_nil yara c)] at h
    rw [eq_of_mem_escape (by decide) (by decide) (List.mem_of_head? h)]
    rfl

theorem getLast?_of_getLast?_escape {cs : List Char}
    (h : (cs.flatMap yara.escape).getLast? = some '"') : cs.getLast? = some '"' := by
  rcases List.eq_nil_or_concat cs with rfl | ⟨init, c, rfl⟩
  · cases h
  · rw [List.concat_eq_append, List.flatMap_append, List.flatMap_singleton,
      List.getLast?_append_of_ne_nil _ (escape_ne_nil yara c)] at h
    rw [eq_of_mem_escape (by decide) (by decide) (List.mem_of_getLast? h), List.concat_eq_append,
      List.getLast?_concat]

theorem length_le_escape (yara : YaraPrinter) (cs : List Char) :
    cs.length ≤ (cs.flatMap yara.escape).length := by
  induction cs with
  | nil => exact Nat.le_refl 0
  | cons c cs ih =>
    have hpos := List.length_pos_iff.mpr (escape_ne_nil yara c)
    rw [List.flatMap_cons, List.length_append, List.length_cons]
    omega

/-- A text is printed as it is if none of its characters is escaped. -/
theorem flatMap_escape_eq_iff {cs : List Char} :
    cs.flatMap yara.escape = cs ↔ ∀ c ∈ cs, yara.escape c = [c] := by
  induction cs with
  | nil => simp
  | cons c cs ih =>
    rw [List.flatMap_cons, List.forall_mem_cons, ← ih]
    constructor
    · intro h
      rcases yara.escaped c with hkept | ⟨rest, hrest, hescape, -⟩
      · rw [hkept] at h
        exact ⟨hkept, (List.cons.inj h).2⟩
      · -- an escaped character is longer, and nothing that follows is shorter
        have hlength := congrArg List.length h
        have hpos := List.length_pos_iff.mpr hrest
        have hle := length_le_escape yara cs
        rw [hescape, List.length_append, List.length_cons, List.length_cons] at hlength
        omega
    · intro h
      rw [h.1, h.2]
      rfl

theorem printText_eq_iff {s : String} :
    yara.printText s = s ↔ ∀ c ∈ s.toList, yara.escape c = [c] := by
  rw [← flatMap_escape_eq_iff, ← String.toList_inj, YaraPrinter.printText, String.toList_ofList]

theorem count_printText (yara : YaraPrinter) (s : String) :
    (yara.printText s).toList.count ']' = s.toList.count ']' := by
  have hcount : ∀ c, (yara.escape c).count ']' = [c].count ']' := by
    intro c
    rcases eq_or_ne c ']' with rfl | hne
    · rw [yara.plain ']' (by decide) (by decide) (by decide)]
    · rw [List.count_eq_zero.mpr fun hmem =>
        hne (eq_of_mem_escape (by decide) (by decide) hmem).symm, List.count_eq_zero.mpr]
      exact fun hmem => hne (List.mem_singleton.mp hmem).symm
  rw [YaraPrinter.printText, String.toList_ofList]
  induction s.toList with
  | nil => rfl
  | cons c cs ih =>
    rw [List.flatMap_cons, List.count_append, hcount, ih, ← List.count_append]
    rfl

theorem stripQuotes_eq_self {s : String} (h : s.toList.head? ≠ some '"')
    (hlast : s.toList.getLast? ≠ some '"') : stripQuotes s = s := by
  rw [stripQuotes, dropWhile_rdropWhile_eq_self, String.ofList_toList]
  · intro c hc
    exact decide_eq_false fun heq => h (heq ▸ hc)
  · intro c hc
    exact decide_eq_false fun heq => hlast (heq ▸ hc)

theorem stripQuotes_quoted (s : String) : stripQuotes ("\"" ++ s ++ "\"") = stripQuotes s := by
  have hchars : ("\"" ++ s ++ "\"").toList = '"' :: (s.toList ++ ['"']) := by simp
  rw [stripQuotes, hchars, dropWhile_rdropWhile_quoted (by decide), stripQuotes]

theorem count_stripQuotes (s : String) :
    (stripQuotes s).toList.count ']' = s.toList.count ']' := by
  rw [stripQuotes, String.toList_ofList]
  exact count_dropWhile_rdropWhile (by decide) s.toList

theorem readMetaValue_of_ne {s : String} (htrue : s ≠ "true") (hfalse : s ≠ "false") :
    readMetaValue s = .str (stripQuotes s) := by
  rw [readMetaValue, if_neg htrue, if_neg hfalse]

theorem readMetaValue_quoted (s : String) :
    readMetaValue ("\"" ++ s ++ "\"") = .str (stripQuotes s) := by
  have hfirst : ("\"" ++ s ++ "\"").toList.head? = some '"' := by simp
  rw [readMetaValue_of_ne, stripQuotes_quoted]
  · intro heq
    rw [heq] at hfirst
    exact absurd hfirst (by decide)
  · intro heq
    rw [heq] at hfirst
    exact absurd hfirst (by decide)

theorem readMetaValue_integer (n : Int) : readMetaValue (toString n) = .str (toString n) := by
  have hchar : ∀ c, c.isDigit = false → c ≠ '-' → c ∉ (toString n).toList :=
    fun c hc hsign => not_mem_toString_of_not_isDigit hc hsign n
  rw [readMetaValue_of_ne, stripQuotes_eq_self]
  · exact fun h => hchar '"' (by decide) (by decide) (List.mem_of_head? h)
  · exact fun h => hchar '"' (by decide) (by decide) (List.mem_of_getLast? h)
  · exact fun h => hchar 't' (by decide) (by decide) (by rw [h]; decide)
  · exact fun h => hchar 'f' (by decide) (by decide) (by rw [h]; decide)

/-- A value that fits is read as what it is if `yara` prints it as it is. -/
theorem readMetaValue_print_iff (h : value.Fits) :
    readMetaValue (value.print yara) = value.read ↔ value.Kept yara := by
  cases value with
  | boolean b => cases b <;> exact iff_of_true rfl trivial
  | integer n => exact iff_of_true (readMetaValue_integer n) trivial
  | text s oneLine =>
    obtain ⟨-, hfirst, hlast⟩ := h
    have hstrip : stripQuotes (yara.printText s) = yara.printText s := by
      refine stripQuotes_eq_self (fun hhead => hfirst ?_) (fun htail => hlast ?_)
      · rw [YaraPrinter.printText, String.toList_ofList] at hhead
        exact head?_of_head?_escape hhead
      · rw [YaraPrinter.printText, String.toList_ofList] at htail
        exact getLast?_of_getLast?_escape htail
    show readMetaValue ("\"" ++ yara.printText s ++ "\"") = .str s ↔ ∀ c ∈ s.toList, _
    rw [readMetaValue_quoted, hstrip, MetaValue.str.injEq, printText_eq_iff]

theorem kept_integer (yara : YaraPrinter) (n : Int) :
    ∀ c ∈ (toString n).toList, yara.escape c = [c] := by
  intro c hc
  have hchar : c.isDigit = true ∨ c = '-' := by
    by_contra hnot
    rw [not_or, Bool.not_eq_true] at hnot
    exact not_mem_toString_of_not_isDigit hnot.1 hnot.2 n hc
  rcases hchar with hdigit | rfl
  · have hzero : '0'.toNat = 48 := rfl
    have hnine : '9'.toNat = 57 := rfl
    rw [Char.isDigit_iff_toNat] at hdigit
    refine yara.plain c (by omega) (by omega) fun hmem => ?_
    simp only [List.mem_cons, List.not_mem_nil, or_false] at hmem
    rcases hmem with rfl | rfl | rfl <;> exact absurd hdigit (by decide)
  · exact yara.plain '-' (by decide) (by decide) (by decide)

/-- A text with a quote or a backslash is not printed as it is. -/
theorem not_kept_of_mem {c : Char} {s : String} {oneLine : '\n' ∉ s.toList}
    (hc : c ∈ ['"', '\\']) (h : c ∈ s.toList) : ¬(PrintedValue.text s oneLine).Kept yara :=
  fun hkept => yara.special c hc (hkept c h)

/-- Values that are read as the same text are printed in the same way. -/
theorem PrintedValue.Kept.congr (h : value.Kept yara) (hread : value.read = other.read) :
    other.Kept yara := by
  cases other with
  | boolean b => trivial
  | integer n => trivial
  | text s oneLine =>
    cases value with
    | boolean b => cases hread
    | integer n =>
      rw [PrintedValue.Kept, ← MetaValue.str.inj hread]
      exact kept_integer yara n
    | text s' oneLine' =>
      rw [PrintedValue.Kept, ← MetaValue.str.inj hread]
      exact h

/-- A value is read as something else when a bracket follows. -/
theorem readMetaValue_bracket_ne (value : PrintedValue) (rest : List Char) :
    readMetaValue (String.ofList ((value.print yara).toList ++ ']' :: rest)) ≠ value.read := by
  have hmem : ']' ∈ (String.ofList ((value.print yara).toList ++ ']' :: rest)).toList := by simp
  have hread : readMetaValue (String.ofList ((value.print yara).toList ++ ']' :: rest)) =
      .str (stripQuotes (String.ofList ((value.print yara).toList ++ ']' :: rest))) := by
    refine readMetaValue_of_ne ?_ ?_
    · intro heq
      rw [heq] at hmem
      exact absurd hmem (by decide)
    · intro heq
      rw [heq] at hmem
      exact absurd hmem (by decide)
  -- the bracket is one more than the value holds
  have hcount : (value.print yara).toList.count ']' <
      (stripQuotes (String.ofList ((value.print yara).toList ++ ']' :: rest))).toList.count ']' := by
    rw [count_stripQuotes, String.toList_ofList, List.count_append, List.count_cons_self]
    omega
  rw [hread]
  intro heq
  cases value with
  | boolean b => cases heq
  | integer n =>
    rw [MetaValue.str.inj heq] at hcount
    exact absurd hcount (Nat.lt_irrefl _)
  | text s oneLine =>
    have hs : ((PrintedValue.text s oneLine).print yara).toList.count ']' =
        s.toList.count ']' := by
      rw [← count_printText yara s]
      simp [PrintedValue.print]
    rw [MetaValue.str.inj heq, hs] at hcount
    exact absurd hcount (Nat.lt_irrefl _)

theorem textFits_of_readMetaValue {v s : String} (hcomma : ',' ∉ v.toList)
    (h : readMetaValue v = .str s) : TextFits s := by
  have hs : s = stripQuotes v := by
    unfold readMetaValue at h
    split at h
    · cases h
    · split at h
      · cases h
      · exact (MetaValue.str.inj h).symm
  have hchars : s.toList = (v.toList.dropWhile fun c => decide (c = '"')).rdropWhile
      fun c => decide (c = '"') := by
    rw [hs, stripQuotes, String.toList_ofList]
  rw [TextFits, hchars]
  refine ⟨fun hmem => hcomma ?_, fun hfirst => ?_, fun hlast => ?_⟩
  · exact (List.dropWhile_sublist _).subset ((List.rdropWhile_prefix _ _).subset hmem)
  · exact absurd (ends_dropWhile_rdropWhile (.inl hfirst)) (by decide)
  · exact absurd (ends_dropWhile_rdropWhile (.inr hlast)) (by decide)

/-- A text that is read from an item fits. -/
theorem textFits_of_mem_assignments {text : List Char} {key s : String}
    (h : (key, MetaValue.str s) ∈ assignments text) : TextFits s := by
  obtain ⟨item, hitem, hread⟩ := List.mem_filterMap.mp h
  obtain ⟨e, he, heq⟩ := Option.map_eq_some_iff.mp hread
  have hcomma : ',' ∉ item := not_mem_of_mem_splitOn hitem
  unfold splitItem at he
  split at he
  · cases he
    refine textFits_of_readMetaValue (fun hmem => hcomma ?_) (Prod.mk.inj heq).2
    rw [String.toList_ofList, String.toList_ofList] at hmem
    exact (List.dropWhile_sublist _).subset (List.mem_of_mem_tail hmem)
  · cases he

/-! ## 3. Printed items -/

/-- Where such a character comes from. -/
theorem mem_item_print {c : Char} {item : MetaItem} (hname : isIdentifierChar c = false)
    (hsigns : c ∉ ['=', '-', '"', '\\']) (h : c ∈ (item.print yara).toList) :
    ∃ s oneLine, item.value = .text s oneLine ∧ c ∈ s.toList := by
  have hword : ∀ s : String, s.toList.all isIdentifierChar = true → c ∉ s.toList := by
    intro s hs hmem
    rw [List.all_eq_true.mp hs c hmem] at hname
    cases hname
  have halnum : c.isAlphanum = false := (Bool.or_eq_false_iff.mp hname).1
  simp only [List.mem_cons, List.not_mem_nil, or_false, not_or] at hsigns
  obtain ⟨hequal, hminus, hquote, hslash⟩ := hsigns
  rw [MetaItem.print, String.toList_append, String.toList_append, List.mem_append,
    List.mem_append] at h
  rcases h with (h | h) | h
  · exact absurd h (hword item.key (List.all_eq_true.mpr item.identifier))
  · exact absurd (List.mem_singleton.mp h) hequal
  · cases hvalue : item.value with
    | boolean b =>
      rw [hvalue] at h
      cases b with
      | true => exact absurd h (hword "true" (by decide))
      | false => exact absurd h (hword "false" (by decide))
    | integer n =>
      rw [hvalue] at h
      have hdigit : c.isDigit = false := (Bool.or_eq_false_iff.mp halnum).2
      exact absurd h (not_mem_toString_of_not_isDigit hdigit hminus n)
    | text s oneLine =>
      rw [hvalue, PrintedValue.print, String.toList_append, String.toList_append, List.mem_append,
        List.mem_append] at h
      rcases h with (h | h) | h
      · exact absurd (List.mem_singleton.mp h) hquote
      · exact ⟨s, oneLine, rfl, mem_of_mem_printText halnum hslash h⟩
      · exact absurd (List.mem_singleton.mp h) hquote

theorem readItem_print (item : MetaItem) (rest : List Char) :
    readItem ((item.print yara).toList ++ rest) =
      some (item.key, readMetaValue (String.ofList ((item.value.print yara).toList ++ rest))) := by
  have hkey : ∀ c ∈ item.key.toList, decide (c ≠ '=') = true := by
    intro c hc
    refine decide_eq_true fun heq => ?_
    have hchar := item.identifier c hc
    rw [heq] at hchar
    exact absurd hchar (by decide)
  have hchars : (item.print yara).toList ++ rest =
      item.key.toList ++ '=' :: ((item.value.print yara).toList ++ rest) := by
    simp [MetaItem.print]
  have htake : ((item.print yara).toList ++ rest).takeWhile (fun c => decide (c ≠ '=')) =
      item.key.toList := by
    rw [hchars, List.takeWhile_append_of_pos hkey, List.takeWhile_cons_of_neg (by simp),
      List.append_nil]
  have hdrop : ((item.print yara).toList ++ rest).dropWhile (fun c => decide (c ≠ '=')) =
      '=' :: ((item.value.print yara).toList ++ rest) := by
    rw [hchars, List.dropWhile_append_of_pos hkey, List.dropWhile_cons_of_neg (by simp)]
  have hmem : '=' ∈ (item.print yara).toList ++ rest := by
    rw [hchars]
    simp
  rw [readItem, splitItem, String.toList_ofList, if_pos hmem, htake, hdrop, String.ofList_toList]
  rfl

theorem readItem_item (item : MetaItem) :
    readItem (item.print yara).toList = some (item.readEntry yara) := by
  have hread := @readItem_print yara item []
  rw [List.append_nil, List.append_nil, String.ofList_toList] at hread
  exact hread

theorem readItem_eq_none_iff {item : List Char} : readItem item = none ↔ '=' ∉ item := by
  rw [readItem, Option.map_eq_none_iff, splitItem, String.toList_ofList]
  simp

theorem not_mem_comma_print (yara : YaraPrinter) (h : item.value.Fits) :
    ',' ∉ (item.print yara).toList := by
  intro hmem
  obtain ⟨s, oneLine, hvalue, hs⟩ := mem_item_print (by decide) (by decide) hmem
  rw [hvalue] at h
  exact h.1 hs

/-- The last item is read with what follows it. -/
theorem assignments_append {init : List MetaItem} {last : MetaItem}
    (h : ∀ item ∈ init ++ [last], item.value.Fits) (rest : List Char) :
    assignments
        ([','].intercalate ((init ++ [last]).map fun item => (item.print yara).toList) ++ rest) =
      init.map (MetaItem.readEntry yara) ++
        ((rest.splitOn ',').modifyHead ((last.print yara).toList ++ ·)).filterMap readItem := by
  have hcomma : ∀ part ∈ init.map fun item => (item.print yara).toList, ',' ∉ part := by
    intro part hpart
    obtain ⟨item, hitem, rfl⟩ := List.mem_map.mp hpart
    exact not_mem_comma_print yara (h item (List.mem_append_left _ hitem))
  have hlast := not_mem_comma_print yara (h last (List.mem_append_right _ List.mem_cons_self))
  have hinit : (init.map fun item => (item.print yara).toList).filterMap readItem =
      init.map (MetaItem.readEntry yara) := by
    rw [List.filterMap_map, ← List.filterMap_eq_map]
    exact List.filterMap_congr fun item _ => readItem_item item
  rw [assignments, List.map_append, List.map_singleton, splitOn_intercalate_append hcomma hlast,
    List.filterMap_append, hinit]

/-- The keys of what is read are the keys of the items. -/
theorem mem_readEntries_iff {key : String} :
    key ∈ Dict.ofList (items.map (MetaItem.readEntry yara)) ↔ key ∈ items.map MetaItem.key := by
  have hkeys : (items.map (MetaItem.readEntry yara)).map Prod.fst = items.map MetaItem.key := by
    rw [List.map_map]
    rfl
  rw [← hkeys]
  exact Dict.mem_setAll.trans (or_iff_right (Dict.not_mem_empty key))

/-- An item is read as what it is if `yara` prints it as it is. -/
theorem get?_readEntries_iff (hfits : ∀ item ∈ items, item.value.Fits)
    (hagree : ItemsAgree items items) (hitem : item ∈ items) :
    (Dict.ofList (items.map (MetaItem.readEntry yara))).get? item.key = some item.value.read ↔
      item.value.Kept yara := by
  have hkeys : (items.map (MetaItem.readEntry yara)).map Prod.fst = items.map MetaItem.key := by
    rw [List.map_map]
    rfl
  -- the last item with the key decides
  obtain ⟨value, hvalue, hmem⟩ := Dict.exists_get?_ofList
    (hkeys ▸ List.mem_map_of_mem hitem : item.key ∈ (items.map (MetaItem.readEntry yara)).map _)
  obtain ⟨last, hlast, heq⟩ := List.mem_map.mp hmem
  obtain ⟨hkey, rfl⟩ := Prod.mk.inj heq
  have hsame := hagree.values last hlast item hitem hkey
  rw [hvalue, Option.some.injEq, ← hsame, readMetaValue_print_iff (hfits last hlast)]
  exact ⟨fun h => h.congr hsame, fun h => h.congr hsame.symm⟩

end MetaItems

/-! ## 4. The meta items of a rule -/

/-- The items in a part of a path, behind its first comma. -/
def pathItems (part : List Char) : Dict String MetaValue :=
  .ofList ((part.splitOn ',').tail.filterMap readItem)

/-- Reading on in this part of the path changes nothing. -/
structure PathItemsFit (items : List MetaItem) (part : List Char) : Prop where
  values : ∀ key value, (pathItems part).get? key = some value →
    ∃ item ∈ items, item.entry = (key, value)
  last : ∀ item, items.getLast? = some item → item.key ∈ pathItems part
  empty : items = [] → '=' ∉ part

/-- The printed items. -/
def metaChars (yara : YaraPrinter) (items : List MetaItem) : List Char :=
  [','].intercalate (items.map fun item => (item.print yara).toList)

section RuleItems
variable {tables : CharTables} {yara : YaraPrinter} {items : List MetaItem} {part : List Char}

theorem metaPart_append {b : List Char} (a : List Char) (h : metaPart b = some part) :
    metaPart (a ++ b) = some (a ++ part) := by
  induction a with
  | nil => exact h
  | cons c a ih => rw [List.cons_append, metaPart, ih]; rfl

theorem metaPart_path (rule : MatchedRule tables) :
    metaPart (']' :: ' ' :: rule.path.toList) =
      some ((metaPart rule.path.toList).elim [] fun part => ']' :: ' ' :: part) := by
  have hends := metaEnds_path rule
  rw [metaPart, metaPart]
  cases metaPart rule.path.toList with
  | some part => rfl
  | none =>
    have hspace : metaEnds (' ' :: rule.path.toList) = false := rfl
    rw [hspace, hends]
    rfl

theorem readMeta_eq (yara : YaraPrinter) (rule : MatchedRule tables) :
    rule.readMeta yara = String.ofList (metaChars yara rule.metaItems ++
      (metaPart rule.path.toList).elim [] fun part => ']' :: ' ' :: part) := by
  rw [MatchedRule.readMeta, MatchedRule.metaText, String.toList_ofList,
    metaPart_append _ (metaPart_path rule)]
  rfl

theorem fits_of_holdsItems {text : List Char} (h : HoldsItems (.ofList (assignments text)) items) :
    ∀ item ∈ items, item.value.Fits := by
  intro item hitem
  have hmem := Dict.mem_of_get?_ofList (h.values item hitem)
  cases hvalue : item.value with
  | boolean b => trivial
  | integer n => trivial
  | text s oneLine =>
    rw [hvalue] at hmem
    exact textFits_of_mem_assignments hmem

/-- What items assign if all their values fit. -/
theorem assignments_metaChars (h : ∀ item ∈ items, item.value.Fits) :
    assignments (metaChars yara items) = items.map (MetaItem.readEntry yara) := by
  rcases List.eq_nil_or_concat items with rfl | ⟨init, last, rfl⟩
  · rfl
  · rw [List.concat_eq_append] at h ⊢
    have hassign := @assignments_append yara _ _ h []
    rw [List.append_nil, List.splitOn_nil, List.modifyHead_cons, List.append_nil] at hassign
    rw [metaChars, hassign, List.filterMap_cons_some (readItem_item last), List.map_append]
    rfl

theorem assignments_eq_nil_iff {text : List Char} : assignments text = [] ↔ '=' ∉ text := by
  have hsep : '=' ≠ ',' := by decide
  have hmem : '=' ∈ text ↔ ∃ part ∈ text.splitOn ',', '=' ∈ part := by
    rw [← mem_intercalate_iff hsep, List.intercalate_splitOn]
  rw [assignments, List.filterMap_eq_nil_iff, hmem]
  simp only [readItem_eq_none_iff]
  push Not
  rfl

/-- Without items nothing is read in the path. -/
theorem holdsItems_path_nil :
    HoldsItems (.ofList (assignments (']' :: ' ' :: part))) [] ↔ PathItemsFit [] part := by
  have hequal : '=' ∈ ']' :: ' ' :: part ↔ '=' ∈ part := by simp
  constructor
  · intro h
    have hpart : '=' ∉ part := by
      rw [← hequal, ← assignments_eq_nil_iff]
      refine List.eq_nil_iff_forall_not_mem.mpr fun e he => ?_
      have hkey : e.1 ∈ Dict.ofList (assignments (']' :: ' ' :: part)) :=
        Dict.mem_setAll.mpr (.inr (List.mem_map_of_mem he))
      cases h.keys e.1 hkey
    refine ⟨fun key value hvalue => ?_, fun item hitem => by simp at hitem, fun _ => hpart⟩
    obtain ⟨item, hitem, hread⟩ := List.mem_filterMap.mp (Dict.mem_of_get?_ofList hvalue)
    have hassigned : (key, value) ∈ assignments part :=
      List.mem_filterMap.mpr ⟨item, List.mem_of_mem_tail hitem, hread⟩
    rw [assignments_eq_nil_iff.mpr hpart] at hassigned
    cases hassigned
  · intro h
    rw [assignments_eq_nil_iff.mpr (hequal.not.mpr (h.empty rfl))]
    exact ⟨fun item hitem => (List.not_mem_nil hitem).elim,
      fun key hkey => absurd hkey (Dict.not_mem_empty key)⟩

theorem get?_assignments_path {init : List MetaItem} {last : MetaItem}
    (h : ∀ item ∈ init ++ [last], item.value.Fits) (part : List Char) :
    ∃ rest, ∀ key,
      (Dict.ofList (assignments
          (metaChars yara (init ++ [last]) ++ ']' :: ' ' :: part))).get? key =
        ((pathItems part).get? key).or
          (if key = last.key then
            some (readMetaValue (String.ofList ((last.value.print yara).toList ++ ']' :: rest)))
          else (Dict.ofList ((init ++ [last]).map (MetaItem.readEntry yara))).get? key) := by
  obtain ⟨first, others, hsplit⟩ := List.exists_cons_of_ne_nil (List.splitOn_ne_nil ',' part)
  have hbracket : (']' :: ' ' :: part).splitOn ',' = (']' :: ' ' :: first) :: others := by
    have hcomma : ',' ∉ [']', ' '] := by decide
    have hfront := splitOn_append_of_not_mem hcomma part
    rw [hsplit] at hfront
    exact hfront
  have hassign : assignments (metaChars yara (init ++ [last]) ++ ']' :: ' ' :: part) =
      (init.map (MetaItem.readEntry yara) ++ [(last.key, readMetaValue (String.ofList
        ((last.value.print yara).toList ++ ']' :: ' ' :: first)))]) ++
          others.filterMap readItem := by
    rw [metaChars, assignments_append h, hbracket, List.modifyHead_cons,
      List.filterMap_cons_some (readItem_print last _), List.append_assoc]
    rfl
  refine ⟨' ' :: first, fun key => ?_⟩
  rw [hassign, Dict.get?_ofList_append, Dict.get?_ofList_concat, pathItems, hsplit, List.map_append,
    List.map_singleton, Dict.get?_ofList_concat]
  refine congrArg _ ?_
  rcases eq_or_ne key last.key with rfl | hne
  · rw [if_pos rfl, if_pos rfl]
  · have hentry : ¬key = (last.readEntry yara).1 := hne
    rw [if_neg hne, if_neg hne, if_neg hentry]

theorem holdsItems_path_iff (h : ∀ item ∈ items, item.value.Fits)
    (hagree : ItemsAgree items items) :
    HoldsItems (.ofList (assignments (metaChars yara items ++ ']' :: ' ' :: part))) items ↔
      PathItemsFit items part ∧
        ∀ item ∈ items, item.value.Kept yara ∨ item.key ∈ pathItems part := by
  rcases List.eq_nil_or_concat items with rfl | ⟨init, last, rfl⟩
  · exact holdsItems_path_nil.trans (and_iff_left (by simp)).symm
  · rw [List.concat_eq_append] at h hagree ⊢
    obtain ⟨rest, hget⟩ := @get?_assignments_path yara _ _ h part
    have hlast : last ∈ init ++ [last] := List.mem_append_right _ List.mem_cons_self
    constructor
    · intro hholds
      have hkey : last.key ∈ pathItems part := by
        by_contra hnot
        have hfull := hget last.key
        rw [Dict.get?_eq_none_iff.mpr hnot, Option.none_or, if_pos rfl,
          hholds.values last hlast] at hfull
        exact readMetaValue_bracket_ne last.value rest (Option.some.inj hfull).symm
      refine ⟨⟨fun key value hvalue => ?_, fun item hitem => ?_, fun hnil => ?_⟩,
        fun item hitem => or_iff_not_imp_right.mpr fun hnot => ?_⟩
      · have hfull := hget key
        rw [hvalue, Option.some_or] at hfull
        obtain ⟨item, hitem, rfl⟩ := List.mem_map.mp (hholds.keys key (Dict.mem_of_get? hfull))
        rw [hholds.values item hitem] at hfull
        exact ⟨item, hitem, Prod.ext rfl (Option.some.inj hfull)⟩
      · rw [List.getLast?_concat] at hitem
        cases hitem
        exact hkey
      · exact absurd hnil (by simp)
      · have hne : item.key ≠ last.key := fun heq => hnot (heq ▸ hkey)
        have hfull := hget item.key
        rw [Dict.get?_eq_none_iff.mpr hnot, Option.none_or, if_neg hne,
          hholds.values item hitem] at hfull
        exact (get?_readEntries_iff h hagree hitem).mp hfull.symm
    · intro hfits
      obtain ⟨hfits, hkept⟩ := hfits
      have hkey : last.key ∈ pathItems part := hfits.last last List.getLast?_concat
      constructor
      · intro item hitem
        rw [hget]
        cases hvalue : (pathItems part).get? item.key with
        | some value =>
          obtain ⟨other, hother, heq⟩ := hfits.values item.key value hvalue
          obtain ⟨hsame, rfl⟩ := Prod.mk.inj heq
          rw [hagree.values item hitem other hother hsame.symm]
          rfl
        | none =>
          have hnot := Dict.get?_eq_none_iff.mp hvalue
          have hne : item.key ≠ last.key := fun heq => hnot (heq ▸ hkey)
          have hread := (get?_readEntries_iff h hagree hitem).mpr
            ((hkept item hitem).resolve_right hnot)
          rw [if_neg hne, hread]
          rfl
      · intro key hmem
        obtain ⟨value, hvalue⟩ := Dict.mem_iff.mp hmem
        rw [hget] at hvalue
        cases hpath : (pathItems part).get? key with
        | some value' =>
          obtain ⟨item, hitem, heq⟩ := hfits.values key value' hpath
          exact List.mem_map.mpr ⟨item, hitem, congrArg Prod.fst heq⟩
        | none =>
          rw [hpath, Option.none_or] at hvalue
          split at hvalue
          · next heq => exact List.mem_map.mpr ⟨last, hlast, heq.symm⟩
          · exact mem_readEntries_iff.mp (Dict.mem_of_get? hvalue)

/-- An item is read as what it is: it is printed as it is, or read again in the path. -/
def ItemRead (yara : YaraPrinter) (path : List Char) (item : MetaItem) : Prop :=
  item.value.Kept yara ∨ ∃ part, metaPart path = some part ∧ item.key ∈ pathItems part

/-- When the meta items of a rule are read as what they are. -/
theorem holdsItems_readMeta_iff (rule : MatchedRule tables) :
    HoldsItems (parseMetaData (rule.readMeta yara)) rule.metaItems ↔
      (∀ item ∈ rule.metaItems, item.value.Fits) ∧ ItemsAgree rule.metaItems rule.metaItems ∧
        (∀ item ∈ rule.metaItems, ItemRead yara rule.path.toList item) ∧
          ∀ part, metaPart rule.path.toList = some part → PathItemsFit rule.metaItems part := by
  rw [readMeta_eq, parseMetaData_ofList]
  cases hpart : metaPart rule.path.toList with
  | none =>
    rw [Option.elim_none, List.append_nil]
    constructor
    · intro h
      have hfits := fits_of_holdsItems h
      have hagree := itemsAgree_of_holdsItems h h
      rw [assignments_metaChars hfits] at h
      refine ⟨hfits, hagree, fun item hitem => .inl ?_, fun part hpart => by cases hpart⟩
      exact (get?_readEntries_iff hfits hagree hitem).mp (h.values item hitem)
    · intro h
      obtain ⟨hfits, hagree, hread, -⟩ := h
      rw [assignments_metaChars hfits]
      refine ⟨fun item hitem => (get?_readEntries_iff hfits hagree hitem).mpr ?_,
        fun key hkey => mem_readEntries_iff.mp hkey⟩
      refine (hread item hitem).resolve_right fun hpath => ?_
      obtain ⟨part, heq, -⟩ := hpath
      rw [hpart] at heq
      cases heq
  | some part =>
    have hread : ∀ item, ItemRead yara rule.path.toList item ↔
        item.value.Kept yara ∨ item.key ∈ pathItems part := by
      intro item
      refine or_congr_right ⟨fun h => ?_, fun h => ⟨part, hpart, h⟩⟩
      obtain ⟨part', heq, hkey⟩ := h
      rw [hpart] at heq
      cases heq
      exact hkey
    rw [Option.elim_some]
    simp only [hread]
    constructor
    · intro h
      have hfits := fits_of_holdsItems h
      have hagree := itemsAgree_of_holdsItems h h
      obtain ⟨hpath, hkept⟩ := (holdsItems_path_iff hfits hagree).mp h
      refine ⟨hfits, hagree, hkept, fun part' heq => ?_⟩
      cases heq
      exact hpath
    · intro h
      obtain ⟨hfits, hagree, hkept, hpath⟩ := h
      exact (holdsItems_path_iff hfits hagree).mpr ⟨hpath part rfl, hkept⟩

end RuleItems

end FactCore
