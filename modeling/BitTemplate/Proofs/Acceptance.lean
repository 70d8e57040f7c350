import BitTemplate.Proofs.Figures
import BitTemplate.Proofs.Lines
import BitTemplate.Proofs.Rendering

/-!
Which operations can be written as a module. Each has a name, and an extraction with named fields
has a second one for its record. All these names have to be different, and none may be a name that
the module itself needs. The name of a record is free to define if that of its function is, so
nothing else is asked for, and the order of the items does not matter. The text of a module defines
every name once, as can be read off its lines.
-/
namespace BitTemplate

open Failure

namespace Text

/-- The name that a line at the top level of a module defines: by a definition of a function or a
class, by an import, or by an assignment. -/
def definedName? (line : List Char) : Option String :=
  let word := line.takeWhile isNamePart
  let rest := line.dropWhile isNamePart
  if String.ofList word ∈ ["def", "class", "import"] then
    some (String.ofList ((rest.drop 1).takeWhile isNamePart))
  else if !word.isEmpty && " = ".toList.isPrefixOf rest then some (String.ofList word)
  else none

/-- The names that the lines of a text define, in their order. -/
def topLevelNames (text : String) : List String := (lines text).filterMap definedName?

/-- A word goes on to the first character that stands in no name. -/
theorem takeWhile_word {word : List Char} (h : ∀ c ∈ word, isNamePart c = true) {c : Char}
    (hc : isNamePart c = false) (rest : List Char) :
    (word ++ c :: rest).takeWhile isNamePart = word := by
  rw [List.takeWhile_append_of_pos h, List.takeWhile_cons_of_neg (by simp [hc]), List.append_nil]

/-- What a line defines that starts with a word, or with none. -/
theorem definedName?_word {word : List Char} (h : ∀ c ∈ word, isNamePart c = true) {c : Char}
    (hc : isNamePart c = false) (rest : List Char) :
    definedName? (word ++ c :: rest) =
      if String.ofList word ∈ ["def", "class", "import"] then
        some (String.ofList (rest.takeWhile isNamePart))
      else if !word.isEmpty && " = ".toList.isPrefixOf (c :: rest) then some (String.ofList word)
      else none := by
  have hdrop : (word ++ c :: rest).dropWhile isNamePart = c :: rest := by
    rw [List.dropWhile_append_of_pos h, List.dropWhile_cons_of_neg (by simp [hc])]
  unfold definedName?
  rw [takeWhile_word h hc, hdrop]
  rfl

theorem definedName?_of_head {line : List Char} {c : Char} (h : line.head? = some c)
    (hc : isNamePart c = false) : definedName? line = none := by
  obtain ⟨rest, rfl⟩ := List.head?_eq_some_iff.mp h
  have hnone : ∀ c ∈ ([] : List Char), isNamePart c = true := nofun
  exact definedName?_word hnone hc rest

/-- The first line of a function defines its name. -/
theorem definedName?_header {f : Program.Function} (h : isIdentifier f.name = true) :
    definedName? f.header.toList = some f.name := by
  generalize hparams : ", ".intercalate (f.params.map Program.Name.text) = params
  have hheader : f.header.toList =
      "def".toList ++ ' ' :: (f.name.toList ++ '(' :: (params.toList ++ "):".toList)) := by
    simp [Program.Function.header, hparams]
  have hdef : ∀ c ∈ "def".toList, isNamePart c = true := by simp [isNamePart, isNameStart]
  have hparts := (Script.parts_of_isIdentifier h).1
  rw [hheader, definedName?_word hdef (by decide), String.ofList_toList, if_pos (by decide),
    takeWhile_word hparts (by decide), String.ofList_toList]

/-- An assignment defines the name to which it assigns. -/
theorem definedName?_assignment {name : String} (h : isFreeName name = true) (value : String) :
    definedName? (name ++ " = " ++ value).toList = some name := by
  obtain ⟨hidentifier, hfree⟩ := isFreeName_iff.mp h
  have hparts := (Script.parts_of_isIdentifier hidentifier).1
  have hline : (name ++ " = " ++ value).toList =
      name.toList ++ ' ' :: '=' :: ' ' :: value.toList := by
    simp
  have hkeyword : name ∉ ["def", "class", "import"] := by
    have hsubset : ∀ word ∈ ["def", "class", "import"], word ∈ keywords := by decide
    exact fun hmem => hfree (hsubset name hmem)
  have hne : name.toList ≠ [] := by
    intro hnil
    simp [isIdentifier, hnil] at hidentifier
  rw [hline, definedName?_word hparts (by decide), String.ofList_toList, if_neg hkeyword, if_pos]
  simpa using hne

theorem Consists.topLevelNames_eq {s : String} {ls : List String} (h : Consists s ls) :
    topLevelNames s = ls.filterMap fun l => definedName? l.toList := by
  have hlast : [[]].filterMap definedName? = [] := by decide
  rw [topLevelNames, h.lines_eq, List.filterMap_append, List.filterMap_map, hlast, List.append_nil]
  rfl

end Text

namespace Module

open Text

theorem isFreeName_recordName {name : String} (h : isFreeName name = true) :
    isFreeName (recordName name) = true := by
  rw [isFreeName_iff] at h ⊢
  constructor
  · have hends : "_Fields".toList.all isNamePart = true := by decide
    unfold isIdentifier recordName at *
    rw [String.toList_append]
    cases hlist : name.toList with
    | nil => simp [hlist] at h
    | cons c rest =>
      simp only [hlist, Bool.and_eq_true] at h
      simp only [List.cons_append, List.all_append, Bool.and_eq_true]
      exact ⟨h.1.1, h.1.2, hends⟩
  · intro hmem
    apply (Program.keywords_form _ hmem).2
    simp [recordName]

/-- The names of the records of operations. -/
def recordNames (items : List (String × Operation)) : List String :=
  items.flatMap fun p => if p.2.isNamed then [recordName p.1] else []

/-- The names that operations define in a module: those of the functions, and those of the
records. -/
def itemNames (items : List (String × Operation)) : List String :=
  items.map Prod.fst ++ recordNames items

/-- The names that a module defines. -/
def moduleNames (items : List (String × Operation)) : List String :=
  (if items.any fun p => p.2.isNamed then ["collections"] else []) ++
    ["FieldOverflowError", "overflow"] ++ recordNames items ++ items.map Prod.fst

theorem Entry.names_eq (e : Entry) :
    e.names = e.name :: if e.op.isNamed then [recordName e.name] else [] := by
  unfold names Entry.record?
  cases hrecord : e.op.record? e.name with
  | none =>
    rw [(e.op.record?_eq_none_iff e.name).mp hrecord]
    rfl
  | some r =>
    have hnamed : e.op.isNamed = true := by
      rw [← Bool.not_eq_false, ← e.op.record?_eq_none_iff e.name, hrecord]
      exact Option.some_ne_none r
    rw [hnamed, ← Operation.name_of_record? hrecord]
    rfl

/-- Items define the names that their entries do, in another order. -/
theorem itemNames_perm (entries : List Entry) :
    (itemNames (entries.map fun e => (e.name, e.op))).Perm (entries.flatMap Entry.names) := by
  have hnames : entries.flatMap Entry.names = entries.flatMap fun e =>
      e.name :: if e.op.isNamed then [recordName e.name] else [] := by
    congr 1
    funext e
    exact e.names_eq
  rw [hnames, itemNames, recordNames, List.map_map, List.flatMap_map]
  exact List.map_append_flatMap_perm entries _ _

theorem ofItems_operations_eq_ok_iff (items : List (String × Operation)) (m : Module) :
    ofItems (items.map fun p => (.text p.1, .operation p.2)) = .ok m ↔
      ∃ entries, items = entries.map (fun e => (e.name, e.op)) ∧ Apart entries ∧
        m = ofEntries entries := by
  have hitems (entries : List Entry) :
      (items.map fun p => (Value.text p.1, Content.operation p.2)) = entries.map Entry.item ↔
        items = entries.map fun e => (e.name, e.op) := by
    have hitem : entries.map Entry.item = (entries.map fun e => (e.name, e.op)).map
        fun p => (Value.text p.1, Content.operation p.2) := by
      rw [List.map_map]
      rfl
    rw [hitem]
    exact (List.map_injective_iff.mpr item_injective).eq_iff
  simp only [ofItems_eq_ok_iff, hitems]

/-- Entries with code are apart exactly if their functions have free names and all names that they
define are different and not reserved. -/
theorem apart_iff {entries : List Entry}
    (hcode : ∀ e ∈ entries, e.op.function e.name (e.record?.map Prod.fst) = .ok e.code) :
    Apart entries ↔ (∀ e ∈ entries, isFreeName e.name = true) ∧
      (entries.flatMap Entry.names).Nodup ∧ ∀ n ∈ entries.flatMap Entry.names, n ∉ reserved := by
  rw [List.nodup_flatMap]
  constructor
  · rintro ⟨hvalid, hdisjoint⟩
    refine ⟨fun e he => ((hvalid e he).free e.name (List.mem_cons_self ..)).1,
      ⟨fun e he => (hvalid e he).nodup, hdisjoint⟩, ?_⟩
    intro n hn
    obtain ⟨e, he, hmem⟩ := List.mem_flatMap.mp hn
    exact ((hvalid e he).free n hmem).2
  · rintro ⟨hfree, ⟨hnodup, hdisjoint⟩, hreserved⟩
    refine ⟨fun e he => ⟨?_, hnodup e he, hcode e he⟩, hdisjoint⟩
    intro n hn
    refine ⟨?_, hreserved n (List.mem_flatMap.mpr ⟨e, he, hn⟩)⟩
    -- Nothing is asked of the form of a record's name, which the name of the function decides.
    rw [e.names_eq, List.mem_cons] at hn
    rcases hn with rfl | hn
    · exact hfree e he
    · split at hn
      · rw [List.mem_singleton.mp hn]
        exact isFreeName_recordName (hfree e he)
      · cases hn

/-- Operations that can be made have code under every name. -/
theorem exists_entries {items : List (String × Operation)} (hmade : ∀ p ∈ items, p.2.Made) :
    ∃ entries : List Entry, items = entries.map (fun e => (e.name, e.op)) ∧
      ∀ e ∈ entries, e.op.function e.name (e.record?.map Prod.fst) = .ok e.code := by
  induction items with
  | nil => exact ⟨[], rfl, by simp⟩
  | cons p rest ih =>
    rw [List.forall_mem_cons] at hmade
    obtain ⟨entries, rfl, hcode⟩ := ih hmade.2
    obtain ⟨f, hf, _⟩ := hmade.1.exists_function p.1 ((p.2.record? p.1).map Prod.fst)
    exact ⟨⟨p.1, p.2, f⟩ :: entries, rfl, List.forall_mem_cons.mpr ⟨hf, hcode⟩⟩

/-- What the names of items have to be like for a module of them. -/
structure Free (items : List (String × Operation)) : Prop where
  identifiers : ∀ p ∈ items, isIdentifier p.1 = true ∧ p.1 ∉ keywords
  nodup : (itemNames items).Nodup
  unreserved : ∀ n ∈ itemNames items, n ∉ reserved

theorem free_of_apart {entries : List Entry} (h : Apart entries) :
    Free (entries.map fun e => (e.name, e.op)) := by
  obtain ⟨hfree, hnodup, hreserved⟩ := (apart_iff fun e he => (h.valid e he).code).mp h
  have hperm := itemNames_perm entries
  refine ⟨?_, hperm.nodup_iff.mpr hnodup, fun n hn => hreserved n (hperm.mem_iff.mp hn)⟩
  intro p hp
  obtain ⟨e, he, rfl⟩ := List.mem_map.mp hp
  exact isFreeName_iff.mp (hfree e he)

theorem exists_ofItems_iff {items : List (String × Operation)} (hmade : ∀ p ∈ items, p.2.Made) :
    (∃ m, ofItems (items.map fun p => (.text p.1, .operation p.2)) = .ok m) ↔ Free items := by
  constructor
  · rintro ⟨m, hm⟩
    obtain ⟨entries, rfl, hapart, _⟩ := (ofItems_operations_eq_ok_iff _ _).mp hm
    exact free_of_apart hapart
  · rintro ⟨hidentifiers, hnodup, hreserved⟩
    obtain ⟨entries, rfl, hcode⟩ := exists_entries hmade
    have hperm := itemNames_perm entries
    refine ⟨ofEntries entries, (ofItems_operations_eq_ok_iff _ _).mpr ⟨entries, rfl, ?_, rfl⟩⟩
    refine (apart_iff hcode).mpr ⟨?_, hperm.nodup_iff.mp hnodup, ?_⟩
    · intro e he
      exact isFreeName_iff.mpr (hidentifiers _ (List.mem_map.mpr ⟨e, he, rfl⟩))
    · intro n hn
      exact hreserved n (hperm.mem_iff.mpr hn)

theorem Free.perm {items items' : List (String × Operation)} (h : Free items)
    (hperm : items'.Perm items) : Free items' := by
  have hnames : (itemNames items').Perm (itemNames items) :=
    (hperm.map _).append (hperm.flatMap_right _)
  exact ⟨fun p hp => h.identifiers p (hperm.mem_iff.mp hp), hnames.nodup_iff.mpr h.nodup,
    fun n hn => h.unreserved n (hnames.mem_iff.mp hn)⟩

/-- The names that a module defines for itself are reserved, so all its names are different. -/
theorem Free.nodup_moduleNames {items : List (String × Operation)} (h : Free items) :
    (moduleNames items).Nodup := by
  -- They keep the order of the reserved names, and leave out the import if there are no records.
  have hown : ((if items.any fun p => p.2.isNamed then ["collections"] else []) ++
      ["FieldOverflowError", "overflow"]).Sublist reserved := by
    cases items.any fun p => p.2.isNamed with
    | false => decide
    | true => decide
  have hreserved : reserved.Nodup := by decide
  rw [moduleNames, List.append_assoc, List.nodup_append']
  refine ⟨hreserved.sublist hown, List.perm_append_comm.nodup_iff.mp h.nodup, ?_⟩
  intro n hn hitem
  exact h.unreserved n (List.perm_append_comm.mem_iff.mp hitem) (hown.subset hn)

/-- The later lines of a description come before the names that a module defines without one. -/
theorem topLevelNames_text (m : Module) (d : Value) :
    topLevelNames (m.text d) =
      (laterLines d).filterMap definedName? ++ topLevelNames (m.text .none) := by
  have htext (d : Value) : topLevelNames (m.text d) =
      (laterLines d).filterMap definedName? ++ topLevelNames m.body := by
    obtain ⟨heading, hcomment, hlines⟩ := lines_text m d
    have hheading : heading.filterMap definedName? = [] := by
      rw [List.filterMap_eq_nil_iff]
      intro line hline
      have hhead : line.head? = some '#' := by simpa [isComment] using hcomment line hline
      exact definedName?_of_head hhead (by decide)
    rw [topLevelNames, hlines, List.filterMap_append, List.filterMap_append, hheading]
    rfl
  have hnone : topLevelNames (m.text .none) = topLevelNames m.body := htext .none
  rw [htext, hnone]

theorem filterMap_openingLines (records : Bool) :
    (openingLines .none records).filterMap (fun l => definedName? l.toList) =
      (if records then ["collections"] else []) ++ ["FieldOverflowError", "overflow"] := by
  have hpreamble : preambleLines.filterMap (fun l => definedName? l.toList) =
      ["FieldOverflowError", "overflow"] := by
    decide +kernel
  rw [openingLines, List.filterMap_append, hpreamble]
  cases records with
  | false => decide
  | true => decide

theorem filterMap_recordLines {name : String} (h : isFreeName name = true) (op : Operation) :
    (recordLines name op).filterMap (fun l => definedName? l.toList) =
      if op.isNamed then [recordName name] else [] := by
  cases op with
  | extraction x =>
    rw [recordLines, Operation.isNamed]
    split
    · have hrecord : definedName? (recordName name ++ " = collections.namedtuple(\"Fields\", " ++
          Program.tupleText (x.names.map Letter.quoted) ++ ")").toList =
            some (recordName name) := by
        have hspaced : " = collections.namedtuple(\"Fields\", " =
            " = " ++ "collections.namedtuple(\"Fields\", " := by decide
        rw [hspaced, ← String.append_assoc, String.append_assoc, String.append_assoc]
        exact definedName?_assignment (isFreeName_recordName h) _
      have hblank : definedName? "".toList = none := by decide
      simp only [List.filterMap_cons, hblank, hrecord, List.filterMap_nil]
    · rfl
  | combination c => rfl
  | replacement r => rfl
  | transfer t => rfl

theorem Entry.Valid.filterMap_lines {e : Entry} (h : e.Valid) :
    ("" :: "" :: e.code.header :: e.code.bodyLines).filterMap (fun l => definedName? l.toList) =
      [e.name] := by
  have hname : e.code.name = e.name := Operation.name_of_function h.code
  have hfree := (h.free e.name (List.mem_cons_self ..)).1
  have hheader : definedName? e.code.header.toList = some e.name := by
    rw [← hname]
    exact definedName?_header (hname ▸ (isFreeName_iff.mp hfree).1)
  have hbody : e.code.bodyLines.filterMap (fun l => definedName? l.toList) = [] := by
    rw [List.filterMap_eq_nil_iff]
    intro l hl
    exact definedName?_of_head (head?_of_mem_bodyLines hl) (by decide)
  have hblank : definedName? "".toList = none := by decide
  simp only [List.filterMap_cons, hblank, hheader, hbody]

/-- The lines of a module define its names. -/
theorem filterMap_lineList {entries : List Entry} (h : ∀ e ∈ entries, e.Valid) :
    (lineList .none entries).filterMap (fun l => definedName? l.toList) =
      moduleNames (entries.map fun e => (e.name, e.op)) := by
  have hrecords : (entries.flatMap fun e => recordLines e.name e.op).filterMap
      (fun l => definedName? l.toList) = recordNames (entries.map fun e => (e.name, e.op)) := by
    rw [List.filterMap_flatMap, recordNames, List.flatMap_map]
    refine List.flatMap_congr fun e he => ?_
    exact filterMap_recordLines ((h e he).free e.name (List.mem_cons_self ..)).1 e.op
  have hfunctions :
      (entries.flatMap fun e => "" :: "" :: e.code.header :: e.code.bodyLines).filterMap
        (fun l => definedName? l.toList) = entries.map Entry.name := by
    rw [List.filterMap_flatMap, List.map_eq_flatMap]
    exact List.flatMap_congr fun e he => (h e he).filterMap_lines
  rw [lineList, List.filterMap_append, List.filterMap_append, filterMap_openingLines, hrecords,
    hfunctions, moduleNames, List.any_map, List.map_map]
  rfl

theorem topLevelNames_ofItems {items : List (String × Operation)} {m : Module}
    (h : ofItems (items.map fun p => (.text p.1, .operation p.2)) = .ok m) (d : Value) :
    topLevelNames (m.text d) = (laterLines d).filterMap definedName? ++ moduleNames items := by
  obtain ⟨entries, rfl, hapart, rfl⟩ := (ofItems_operations_eq_ok_iff _ _).mp h
  have hshown : ∀ c ∈ (Value.none).shown.toList, isLineBreak c = false := by
    simp [isLineBreak, Value.shown, Value.write]
  rw [topLevelNames_text, (consists_lineList hapart.valid hshown).topLevelNames_eq,
    filterMap_lineList hapart.valid]

/-- Operations make a module exactly if their names are free, whatever their order. The module then
defines each of its names once. Only the later lines of a description can define more. -/
theorem accepts_exactly_free_names {items : List (String × Operation)}
    (hmade : ∀ p ∈ items, p.2.Made) :
    ((∃ m, ofItems (items.map fun p => (.text p.1, .operation p.2)) = .ok m) ↔ Free items) ∧
    (∀ items' : List (String × Operation), items'.Perm items →
      ((∃ m, ofItems (items'.map fun p => (.text p.1, .operation p.2)) = .ok m) ↔
        ∃ m, ofItems (items.map fun p => (.text p.1, .operation p.2)) = .ok m)) ∧
    ∀ m, ofItems (items.map fun p => (.text p.1, .operation p.2)) = .ok m →
      (moduleNames items).Nodup ∧ ∀ d, topLevelNames (m.text d) =
        (laterLines d).filterMap definedName? ++ moduleNames items := by
  refine ⟨exists_ofItems_iff hmade, ?_, ?_⟩
  · intro items' hperm
    have hmade' : ∀ p ∈ items', p.2.Made := fun p hp => hmade p (hperm.mem_iff.mp hp)
    rw [exists_ofItems_iff hmade, exists_ofItems_iff hmade']
    exact ⟨fun h => h.perm hperm.symm, fun h => h.perm hperm⟩
  · intro m hm
    have hfree : Free items := (exists_ofItems_iff hmade).mp ⟨m, hm⟩
    exact ⟨hfree.nodup_moduleNames, topLevelNames_ofItems hm⟩

/-- A record takes the name of another item from it, on either side of it. -/
theorem accepts_exactly_free_names_records :
    ∃ x c m, Extraction.make { template := .text "aab.bacc" } none = .ok x ∧
      Combination.make ⟨.text "aaaabbbb", .base .binary, .text "panic", .none, .none⟩ none =
        .ok c ∧
      ofItems [(.text "store", .operation (.combination c)),
        (.text "read", .operation (.extraction x))] = .ok m ∧
      topLevelNames (m.text (.text "Two words")) =
        ["collections", "FieldOverflowError", "overflow", "read_Fields", "store", "read"] ∧
      (¬ ∃ m, ofItems [(.text "read", .operation (.extraction x)),
        (.text "read_Fields", .operation (.combination c))] = .ok m) ∧
      ¬ ∃ m, ofItems [(.text "read_Fields", .operation (.combination c)),
        (.text "read", .operation (.extraction x))] = .ok m := by
  obtain ⟨x, c, hx, hc, hnamed⟩ :
      ∃ x c, Extraction.make { template := .text "aab.bacc" } none = .ok x ∧
        Combination.make ⟨.text "aaaabbbb", .base .binary, .text "panic", .none, .none⟩ none =
          .ok c ∧ x.named = true :=
    ⟨_, _, rfl, rfl, rfl⟩
  have hmade (first second : String) :
      ∀ p ∈ [(first, Operation.combination c), (second, .extraction x)], p.2.Made := by
    simpa using ⟨Operation.Made.combination hc, Operation.Made.extraction hx⟩
  obtain ⟨haccepted, _, hnames⟩ := accepts_exactly_free_names (hmade "store" "read")
  obtain ⟨hclash, hswap, _⟩ := accepts_exactly_free_names (hmade "read_Fields" "read")
  have hstored : itemNames [("store", .combination c), ("read", .extraction x)] =
      ["store", "read", "read_Fields"] := by
    simp [itemNames, recordNames, Operation.isNamed, hnamed, recordName]
  have hfree : Free [("store", .combination c), ("read", .extraction x)] := by
    refine ⟨?_, ?_, ?_⟩
    · have hwords : ∀ name ∈ ["store", "read"], isIdentifier name = true ∧ name ∉ keywords := by
        decide
      simpa using hwords
    · rw [hstored]
      decide
    · rw [hstored]
      decide
  have htaken : ¬ Free [("read_Fields", .combination c), ("read", .extraction x)] := by
    intro h
    simpa [itemNames, recordNames, Operation.isNamed, hnamed, recordName] using h.nodup
  obtain ⟨m, hm⟩ := haccepted.mpr hfree
  have hrefused := mt hclash.mp htaken
  refine ⟨x, c, m, hx, hc, hm, ?_, ?_, hrefused⟩
  · have hlater : laterLines (.text "Two words") = [] := by decide
    rw [(hnames m hm).2, hlater]
    simp [moduleNames, recordNames, Operation.isNamed, hnamed, recordName]
  · exact mt (hswap [("read", .extraction x), ("read_Fields", .combination c)] (.swap ..)).mp
      hrefused

end Module

end BitTemplate
