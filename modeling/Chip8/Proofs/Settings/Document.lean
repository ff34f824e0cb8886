import Chip8.Proofs.Json.Cut
import Chip8.Proofs.Settings.Load

/-!
# Saved settings

The saved document is a text of an object, its members in order, and of no other member.

* `Settings.objectFront`, `Settings.objectBack` — what stands around one value of an object.
* `Settings.lines`, `Settings.members` — the lines that are saved, and the members that they are a
  text of.
* `Settings.spaced_saveBytes` — the saved text is a text of them.
* `Settings.writtenIn_members` — they mean the settings that are saved.
* `Settings.load_cut` — what is left of a saved text that is cut short.
-/

namespace Chip8

open Json

/-! ## Layout -/

theorem asciiWord_append (first second : String) :
    asciiWord (first ++ second) = asciiWord first ++ asciiWord second := by
  simp [asciiWord]

namespace Settings

theorem blank_indent (level : Nat) : Blank (asciiWord (indent level)) := by
  intro byte hbyte
  simp only [asciiWord, indent, String.toList_ofList, List.map_replicate] at hbyte
  obtain rfl := List.eq_of_mem_replicate hbyte
  rfl

/-- A line of an object's members is the text of a member. -/
structure LineOf (line : String × String) (member : Quoted × Value) : Prop where
  key : asciiWord (quoted line.1) = member.1.text
  value : Spaced member.2.tokens (asciiWord line.2)

/-- A line end with the spaces of the next line. -/
theorem blank_lineEnd (level : Nat) : Blank (asciiWord "\n" ++ asciiWord (indent level)) := by
  intro byte hbyte
  rcases List.mem_append.mp hbyte with hend | hindent
  · obtain rfl : byte = 0x0A := List.mem_singleton.mp hend
    rfl
  · exact blank_indent level byte hindent

theorem asciiWord_memberLines (level : Nat) (key value : String) (rest : List (String × String)) :
    asciiWord (memberLines level ((key, value) :: rest)) =
      asciiWord "\n" ++ asciiWord (indent level) ++ (asciiWord (quoted key) ++
        ([colon] ++ ([0x20] ++ asciiWord value ++ ((if rest.isEmpty then [] else [comma]) ++
          asciiWord (memberLines level rest))))) := by
  have hcolon : asciiWord ": " = [colon] ++ [0x20] := rfl
  have hcomma : asciiWord (if rest.isEmpty then "" else ",") =
      if rest.isEmpty then [] else [comma] := by
    rw [apply_ite asciiWord]
    rfl
  simp only [memberLines, asciiWord_append, hcolon, hcomma, List.append_assoc]

/-- The lines of an object's members are a text of them, whatever tokens follow. -/
theorem spaced_memberLines (level : Nat) {lines : List (String × String)}
    {members : List (Quoted × Value)} (hlines : List.Forall₂ LineOf lines members)
    {tokens : List Token} {last : List UInt8} (hlast : Spaced tokens last) (isFirst : Bool) :
    Spaced (frontTokens isFirst members ++ tokens)
      ((if isFirst || lines.isEmpty then [] else [comma]) ++
        (asciiWord (memberLines level lines) ++ last)) := by
  induction hlines generalizing isFirst with
  | nil => simpa [memberLines, frontTokens, asciiWord] using hlast
  | @cons line member lines members hline hlines ih =>
    -- the comma at the end of a line is the separator in front of the next member
    have hlead : Spaced (separator isFirst)
        (if isFirst || (line :: lines).isEmpty then [] else [comma]) := by
      cases isFirst with
      | true => exact .nil
      | false => exact .cons blank_nil .nil
    have hvalue : Spaced member.2.tokens ([0x20] ++ asciiWord line.2) := by
      obtain ⟨byte, token, tokens, htokens, -⟩ := member.2.tokens_eq_cons
      rw [htokens]
      exact (htokens ▸ hline.value).blank (List.forall_mem_singleton.mpr rfl)
    have hpair := spaced_append_iff.mpr ⟨_, _, hvalue, ih false, rfl⟩
    have hkey : Spaced (member.1.text :: [colon] ::
        (member.2.tokens ++ (frontTokens false members ++ tokens))) _ :=
      .cons (blank_lineEnd level) (.cons blank_nil hpair)
    have hall : Spaced (separator isFirst ++ (member.1.text :: [colon] ::
        (member.2.tokens ++ (frontTokens false members ++ tokens)))) _ :=
      spaced_append_iff.mpr ⟨_, _, hlead, hkey, rfl⟩
    rw [asciiWord_memberLines, hline.key]
    simpa only [frontTokens, List.append_assoc, List.cons_append, List.nil_append,
      Bool.false_or] using hall

theorem spaced_objectText (level : Nat) {lines : List (String × String)}
    {members : List (Quoted × Value)} (hlines : List.Forall₂ LineOf lines members) :
    Spaced (Value.object members).tokens (asciiWord (objectText level lines)) := by
  have hlast : Spaced [[closeBrace]]
      (asciiWord "\n" ++ asciiWord (indent (level - 1)) ++ ([closeBrace] ++ [])) :=
    .cons (blank_lineEnd (level - 1)) .nil
  have hmembers := spaced_memberLines level hlines hlast true
  rw [← memberTokens_eq_append] at hmembers
  have hobject : Spaced ([openBrace] :: memberTokens true members) _ :=
    .cons blank_nil hmembers
  have hopen : asciiWord "\x7b" = [openBrace] := rfl
  have hclose : asciiWord "\x7d" = [closeBrace] := rfl
  rw [objectText, asciiWord_append, asciiWord_append, asciiWord_append, asciiWord_append, hopen,
    hclose]
  simpa only [Value.tokens, Bool.true_or, if_true, List.nil_append, List.append_nil,
    List.append_assoc] using hobject

/-! ## One value in its place -/

/-- What stands in front of the value of a line and of the space before it. -/
def objectFront (level : Nat) (early : List (String × String)) (key : String) : List UInt8 :=
  [openBrace] ++ (asciiWord (memberLines level early) ++ ((if early.isEmpty then [] else [comma]) ++
    (asciiWord "\n" ++ asciiWord (indent level) ++ (asciiWord (quoted key) ++ [colon]))))

/-- What stands behind the value of a line. -/
def objectBack (level : Nat) (late : List (String × String)) : List UInt8 :=
  (if late.isEmpty then [] else [comma]) ++ (asciiWord (memberLines level late) ++
    (asciiWord "\n" ++ asciiWord (indent (level - 1)) ++ [closeBrace]))

theorem asciiWord_memberLines_append (level : Nat) (early : List (String × String))
    (line : String × String) (late : List (String × String)) :
    asciiWord (memberLines level (early ++ line :: late)) =
      asciiWord (memberLines level early) ++ ((if early.isEmpty then [] else [comma]) ++
        asciiWord (memberLines level (line :: late))) := by
  have hnone : asciiWord (memberLines level []) = [] := rfl
  induction early with
  | nil => simp only [hnone, List.nil_append, List.isEmpty_nil, if_true]
  | cons first early ih =>
    obtain ⟨key, value⟩ := first
    have hmore : (early ++ line :: late).isEmpty = false := by cases early <;> rfl
    simp only [List.cons_append, asciiWord_memberLines, ih, hmore, List.isEmpty_cons]
    cases early with
    | nil => simp [hnone]
    | cons second early => simp [List.append_assoc]

/-- The text of an object with one of its values taken out. -/
theorem asciiWord_objectText (level : Nat) (early : List (String × String)) (key value : String)
    (late : List (String × String)) :
    asciiWord (objectText level (early ++ (key, value) :: late)) =
      objectFront level early key ++ (0x20 :: (asciiWord value ++ objectBack level late)) := by
  have hopen : asciiWord "\x7b" = [openBrace] := rfl
  have hclose : asciiWord "\x7d" = [closeBrace] := rfl
  simp only [objectText, asciiWord_append, hopen, hclose, asciiWord_memberLines_append,
    asciiWord_memberLines, objectFront, objectBack, List.append_assoc, List.cons_append,
    List.nil_append]

/-- What stands in front of a value is a text of the members there and of the key. -/
theorem spaced_objectFront (level : Nat) {lines : List (String × String)}
    {members : List (Quoted × Value)} (hlines : List.Forall₂ LineOf lines members) {key : String}
    {name : Quoted} (hkey : asciiWord (quoted key) = name.text) :
    Spaced ([openBrace] :: (frontTokens true members ++
      (separator members.isEmpty ++ ([name.text] ++ [[colon]])))) (objectFront level lines key) := by
  have hempty : lines.isEmpty = members.isEmpty := by cases hlines <;> rfl
  have hseparator : Spaced (separator members.isEmpty)
      (if lines.isEmpty then [] else [comma]) := by
    rw [hempty]
    cases members.isEmpty with
    | true => exact .nil
    | false => exact .cons blank_nil .nil
  have hname : Spaced ([name.text] ++ [[colon]])
      (asciiWord "\n" ++ asciiWord (indent level) ++ (name.text ++ ([] ++ ([colon] ++ [])))) :=
    .cons (blank_lineEnd level) (.cons blank_nil .nil)
  have hkeyed := spaced_append_iff.mpr ⟨_, _, hseparator, hname, rfl⟩
  have hmembers := spaced_memberLines level hlines hkeyed true
  have hobject : Spaced ([openBrace] :: (frontTokens true members ++
      (separator members.isEmpty ++ ([name.text] ++ [[colon]])))) _ := .cons blank_nil hmembers
  rw [objectFront, hkey]
  simpa only [Bool.true_or, if_true, List.nil_append, List.append_nil, List.append_assoc]
    using hobject

theorem endsNumber_objectBack (level : Nat) (late : List (String × String)) :
    EndsNumber (objectBack level late) := by
  cases late with
  | nil => exact endsNumber_cons rfl _
  | cons line late => exact endsNumber_cons rfl _

/-! ## ASCII -/

theorem isAscii_append {first second : String} (hfirst : IsAscii first) (hsecond : IsAscii second) :
    IsAscii (first ++ second) := by
  rw [IsAscii, String.toList_append, List.all_append, Bool.and_eq_true]
  exact ⟨hfirst, hsecond⟩

theorem isAscii_quoted {text : String} (htext : IsAscii text) : IsAscii (quoted text) :=
  isAscii_append (isAscii_append (by decide) htext) (by decide)

theorem isAscii_indent (level : Nat) : IsAscii (indent level) := by
  refine isAscii_iff.mpr fun letter hletter => ?_
  rw [indent, String.toList_ofList] at hletter
  obtain rfl := List.eq_of_mem_replicate hletter
  decide

theorem isAscii_decimal (n : Nat) : IsAscii (Numeral.decimal n) := by
  refine isAscii_iff.mpr fun letter hletter => ?_
  rw [Numeral.toList_decimal] at hletter
  have hdigit := Nat.isDigit_of_mem_toDigits (by decide) (by decide) hletter
  simp only [Char.isDigit, Bool.and_eq_true, decide_eq_true_eq] at hdigit
  exact Nat.lt_of_le_of_lt (UInt32.le_iff_toNat_le.mp hdigit.2) (by decide)

theorem isAscii_memberLines (level : Nat) {lines : List (String × String)}
    (hlines : ∀ line ∈ lines, IsAscii line.1 ∧ IsAscii line.2) :
    IsAscii (memberLines level lines) := by
  induction lines with
  | nil => exact (by decide : IsAscii "")
  | cons line lines ih =>
    obtain ⟨⟨hkey, hvalue⟩, hrest⟩ := List.forall_mem_cons.mp hlines
    have hcomma : IsAscii (if lines.isEmpty then "" else ",") := by
      cases lines.isEmpty <;> decide
    have hline := isAscii_append (isAscii_append (by decide : IsAscii "\n") (isAscii_indent level))
      (isAscii_quoted hkey)
    exact isAscii_append (isAscii_append (isAscii_append (isAscii_append hline (by decide)) hvalue)
      hcomma) (ih hrest)

theorem isAscii_objectText (level : Nat) {lines : List (String × String)}
    (hlines : ∀ line ∈ lines, IsAscii line.1 ∧ IsAscii line.2) :
    IsAscii (objectText level lines) := by
  have hopened := isAscii_append (by decide : IsAscii "\x7b") (isAscii_memberLines level hlines)
  exact isAscii_append (isAscii_append (isAscii_append hopened (by decide))
    (isAscii_indent (level - 1))) (by decide)

theorem isAscii_truthText (value : Bool) : IsAscii (truthText value) := by
  cases value <;> decide

theorem isAscii_dialectText (dialect : Dialect) : IsAscii (dialectText dialect) := by
  refine isAscii_objectText 2 ?_
  simp only [List.forall_mem_cons, List.not_mem_nil, false_implies, implies_true, and_true]
  refine ⟨⟨by decide, isAscii_truthText _⟩, ⟨by decide, isAscii_truthText _⟩,
    ⟨by decide, isAscii_truthText _⟩, ⟨by decide, isAscii_truthText _⟩, by decide,
    isAscii_quoted ?_⟩
  cases dialect.edge <;> decide

theorem isAscii_seedText (seed : Option UInt64) : IsAscii (seedText seed) := by
  cases seed with
  | none => decide
  | some seed => exact isAscii_decimal seed.toNat

/-- The bytes that are saved are the text in UTF-8. -/
theorem saveBytes_eq_encoded (settings : Settings) :
    settings.saveBytes = encoded settings.save.toList := by
  have hascii : IsAscii settings.save := by
    refine isAscii_objectText 1 ?_
    simp only [List.forall_mem_cons, List.not_mem_nil, false_implies, implies_true, and_true]
    exact ⟨⟨by decide, isAscii_decimal _⟩, ⟨by decide, isAscii_decimal _⟩,
      ⟨by decide, isAscii_decimal _⟩, ⟨by decide, isAscii_dialectText _⟩, by decide,
      isAscii_seedText _⟩
  exact (encoded_ascii (isAscii_iff.mp hascii)).symm

/-! ## Members -/

theorem asciiWord_quoted (text : String) (hplain : IsPlainText text) (hascii : IsAscii text) :
    asciiWord (quoted text) = (Quoted.plain text hplain).text := by
  have hquote : asciiWord "\"" = [quote] := rfl
  rw [quoted, asciiWord_append, asciiWord_append, hquote, Quoted.text,
    body_plain text hplain hascii, List.append_assoc]
  rfl

theorem lineOf_plain (key : String) {text : String} {value : Value}
    (hplain : IsPlainText key) (hascii : IsAscii key)
    (hvalue : Spaced value.tokens (asciiWord text)) :
    LineOf (key, text) (.plain key hplain, value) :=
  ⟨asciiWord_quoted key hplain hascii, hvalue⟩

end Settings

/-- The name of an edge as a string. -/
def Edge.written (edge : Edge) : Quoted := .plain edge.name (by cases edge <;> decide)

/-- The members of a dialect in their order. -/
def Dialect.members (dialect : Dialect) : List (Quoted × Value) :=
  [(.plain Settings.blockMovesIndexKey (by decide), .truth dialect.blockMovesIndex),
   (.plain Settings.logicClearsFlagKey (by decide), .truth dialect.logicClearsFlag),
   (.plain Settings.shiftReadsSecondKey (by decide), .truth dialect.shiftReadsSecond),
   (.plain Settings.jumpReadsNamedKey (by decide), .truth dialect.jumpReadsNamed),
   (.plain Settings.edgeKey (by decide), .string dialect.edge.written)]

namespace Settings

def seedValue : Option UInt64 → Value
  | some seed => .number (.ofNat seed.toNat)
  | none => .null

/-- No key needs an escape. -/
theorem isPlainText_keys (place : Nat) {key : String} (hkey : keys[place]? = some key) :
    IsPlainText key := by
  have hplain : ∀ key ∈ keys, IsPlainText key := by decide
  exact hplain key (List.mem_of_getElem? hkey)

/-- The members of settings in their order. -/
def members (settings : Settings) : List (Quoted × Value) :=
  [(.plain speedKey (isPlainText_keys 0 rfl), .number (.ofNat settings.speed.toNat)),
   (.plain programStartKey (isPlainText_keys 1 rfl), .number (.ofNat settings.programStart.toNat)),
   (.plain fontStartKey (isPlainText_keys 2 rfl), .number (.ofNat settings.fontStart.toNat)),
   (.plain dialectKey (isPlainText_keys 3 rfl), .object settings.dialect.members),
   (.plain seedKey (isPlainText_keys 4 rfl), seedValue settings.seed)]

theorem spaced_truthText (value : Bool) :
    Spaced (Value.truth value).tokens (asciiWord (truthText value)) := by
  cases value <;> exact spaced_token _

theorem spaced_decimal (n : Nat) :
    Spaced (Value.number (.ofNat n)).tokens (asciiWord (Numeral.decimal n)) := by
  have htext : asciiWord (Numeral.decimal n) = (NumberForm.ofNat n).text := by
    rw [asciiWord, Numeral.toList_decimal, NumberForm.text_ofNat]
  rw [htext]
  exact spaced_token _

theorem spaced_seedText (seed : Option UInt64) :
    Spaced (seedValue seed).tokens (asciiWord (seedText seed)) := by
  cases seed with
  | none => exact spaced_token _
  | some seed => exact spaced_decimal seed.toNat

theorem spaced_edge (edge : Edge) :
    Spaced (Value.string edge.written).tokens (asciiWord (quoted edge.name)) := by
  rw [asciiWord_quoted edge.name (by cases edge <;> decide) (by cases edge <;> decide)]
  exact spaced_token _

theorem spaced_dialectText (dialect : Dialect) :
    Spaced (Value.object dialect.members).tokens (asciiWord (dialectText dialect)) := by
  refine spaced_objectText 2 ?_
  refine .cons (lineOf_plain blockMovesIndexKey (by decide) (by decide) (spaced_truthText _)) ?_
  refine .cons (lineOf_plain logicClearsFlagKey (by decide) (by decide) (spaced_truthText _)) ?_
  refine .cons (lineOf_plain shiftReadsSecondKey (by decide) (by decide) (spaced_truthText _)) ?_
  refine .cons (lineOf_plain jumpReadsNamedKey (by decide) (by decide) (spaced_truthText _)) ?_
  exact .cons (lineOf_plain edgeKey (by decide) (by decide) (spaced_edge _)) .nil

/-- The lines that are saved. -/
def lines (settings : Settings) : List (String × String) :=
  [(speedKey, Numeral.decimal settings.speed.toNat),
   (programStartKey, Numeral.decimal settings.programStart.toNat),
   (fontStartKey, Numeral.decimal settings.fontStart.toNat),
   (dialectKey, dialectText settings.dialect),
   (seedKey, seedText settings.seed)]

theorem lines_members (settings : Settings) :
    List.Forall₂ LineOf settings.lines settings.members := by
  refine .cons (lineOf_plain speedKey (by decide) (by decide) (spaced_decimal _)) ?_
  refine .cons (lineOf_plain programStartKey (by decide) (by decide) (spaced_decimal _)) ?_
  refine .cons (lineOf_plain fontStartKey (by decide) (by decide) (spaced_decimal _)) ?_
  refine .cons (lineOf_plain dialectKey (by decide) (by decide) (spaced_dialectText _)) ?_
  exact .cons (lineOf_plain seedKey (by decide) (by decide) (spaced_seedText _)) .nil

/-- The saved text is a text of the members that are saved. -/
theorem spaced_saveBytes (settings : Settings) :
    Spaced (Value.object settings.members).tokens settings.saveBytes :=
  spaced_objectText 1 settings.lines_members

/-! ## Meaning -/

theorem natural?_ofNat {limit n : Nat} (hlimit : n < limit) :
    (Value.number (.ofNat n)).natural? limit = some n := by
  rw [Value.natural?, NumberForm.natural?_ofNat, Option.filter_some, if_pos (decide_eq_true hlimit)]

theorem uint64?_ofNat (n : UInt64) : (Value.number (.ofNat n.toNat)).uint64? = some n := by
  rw [Value.uint64?, natural?_ofNat n.toNat_lt, Option.map_some, UInt64.ofNat_toNat]

theorem uint16?_ofNat (n : UInt16) : (Value.number (.ofNat n.toNat)).uint16? = some n := by
  rw [Value.uint16?, natural?_ofNat n.toNat_lt, Option.map_some, UInt16.ofNat_toNat]

theorem choice?_written (edge : Edge) :
    (Value.string edge.written).choice? Edge.ofName? = some edge := by
  rw [Value.choice?, Edge.written, string?_plain, Option.bind_some]
  cases edge <;> rfl

theorem nodup_dialect (dialect : Dialect) :
    (dialect.members.map (·.1.string?)).Nodup := by
  simp only [Dialect.members, List.map_cons, List.map_nil, string?_plain]
  decide

/-- The members of a dialect mean it. -/
theorem writtenIn_dialect (dialect : Dialect) : dialect.WrittenIn dialect.members := by
  have hnodup := nodup_dialect dialect
  refine ⟨by simp [Dialect.members, Quoted.Denotes, string?_plain], ?_, ?_, ?_, ?_, ?_⟩
  · exact sole_of_nodup hnodup (List.mem_of_getElem? (i := 0) rfl) (string?_plain _ _) rfl
  · exact sole_of_nodup hnodup (List.mem_of_getElem? (i := 1) rfl) (string?_plain _ _) rfl
  · exact sole_of_nodup hnodup (List.mem_of_getElem? (i := 2) rfl) (string?_plain _ _) rfl
  · exact sole_of_nodup hnodup (List.mem_of_getElem? (i := 3) rfl) (string?_plain _ _) rfl
  · exact sole_of_nodup hnodup (List.mem_of_getElem? (i := 4) rfl) (string?_plain _ _)
      (choice?_written dialect.edge)

theorem nodup_members (settings : Settings) : (settings.members.map (·.1.string?)).Nodup := by
  simp only [members, List.map_cons, List.map_nil, string?_plain]
  decide

theorem optional?_seedValue (seed : Option UInt64) :
    (seedValue seed).optional? Value.uint64? = some seed := by
  cases seed with
  | none => rfl
  | some seed => exact congrArg (Option.map some) (uint64?_ofNat seed)

/-- The members that are saved mean the settings. -/
theorem writtenIn_members (settings : Settings) : settings.WrittenIn settings.members := by
  have hnodup := nodup_members settings
  refine ⟨⟨by simp [members, Quoted.Denotes, string?_plain], ?_, ?_, ?_, ?_⟩, .inr ?_⟩
  · exact sole_of_nodup hnodup (List.mem_of_getElem? (i := 0) rfl) (string?_plain _ _)
      (uint64?_ofNat settings.speed)
  · exact sole_of_nodup hnodup (List.mem_of_getElem? (i := 1) rfl) (string?_plain _ _)
      (uint16?_ofNat settings.programStart)
  · exact sole_of_nodup hnodup (List.mem_of_getElem? (i := 2) rfl) (string?_plain _ _)
      (uint16?_ofNat settings.fontStart)
  · exact sole_of_nodup hnodup (List.mem_of_getElem? (i := 3) rfl) (string?_plain _ _)
      (.object (writtenIn_dialect settings.dialect))
  · exact sole_of_nodup hnodup (List.mem_of_getElem? (i := 4) rfl) (string?_plain _ _)
      (optional?_seedValue settings.seed)

/-! ## Cuts -/

theorem notices_uint64 (n : UInt64) : Notices readUInt64 (.number (.ofNat n.toNat)) :=
  (notices_readNatural (by rw [natural?_ofNat n.toNat_lt]; rfl)).map UInt64.ofNat

theorem notices_uint16 (n : UInt16) : Notices readUInt16 (.number (.ofNat n.toNat)) :=
  (notices_readNatural (by rw [natural?_ofNat n.toNat_lt]; rfl)).map UInt16.ofNat

theorem notices_seed (seed : Option UInt64) :
    Notices (readOptional readUInt64) (seedValue seed) := by
  cases seed with
  | none => exact notices_readOptional_null readUInt64
  | some seed => exact (notices_uint64 seed).optional

theorem notices_dialect (dialect : Dialect) :
    Notices DialectDraft.read (.object dialect.members) := by
  intro text hspaced front hcut
  have hfill := DialectDraft.fillMembers_iff_writtenIn.mpr (writtenIn_dialect dialect)
  refine .inl (readComplete_cut DialectDraft.complete_slots DialectDraft.finish ?_ hfill hspaced
    hcut)
  simp only [Dialect.members, List.forall_mem_cons, List.not_mem_nil, false_implies, implies_true,
    and_true]
  refine ⟨⟨_, List.mem_of_getElem? (i := 0) rfl, string?_plain _ _, notices_readBool _⟩,
    ⟨_, List.mem_of_getElem? (i := 1) rfl, string?_plain _ _, notices_readBool _⟩,
    ⟨_, List.mem_of_getElem? (i := 2) rfl, string?_plain _ _, notices_readBool _⟩,
    ⟨_, List.mem_of_getElem? (i := 3) rfl, string?_plain _ _, notices_readBool _⟩,
    ⟨_, List.mem_of_getElem? (i := 4) rfl, string?_plain _ _, notices_readChoice _ ?_⟩⟩
  rw [Quoted.Denotes, Edge.written, string?_plain]
  rfl

/-- A saved text that is cut short is truncated. -/
theorem load_cut (settings : Settings) {front : List UInt8} (hcut : Cut front settings.saveBytes) :
    load front = .error .truncated := by
  obtain ⟨filled, hfill, -⟩ := Option.bind_eq_some_iff.mp
    (SettingsDraft.meaning_object_iff.mpr (writtenIn_members settings))
  -- all members are known, so none is passed over without a reader that notices the cut
  have hread : SettingsDraft.read front = .error .truncated := by
    refine readComplete_cut SettingsDraft.complete_slots SettingsDraft.finish ?_ hfill
      (spaced_saveBytes settings) hcut
    simp only [members, List.forall_mem_cons, List.not_mem_nil, false_implies, implies_true,
      and_true]
    exact ⟨⟨_, List.mem_of_getElem? (i := 0) rfl, string?_plain _ _, notices_uint64 _⟩,
      ⟨_, List.mem_of_getElem? (i := 1) rfl, string?_plain _ _, notices_uint16 _⟩,
      ⟨_, List.mem_of_getElem? (i := 2) rfl, string?_plain _ _, notices_uint16 _⟩,
      ⟨_, List.mem_of_getElem? (i := 3) rfl, string?_plain _ _, notices_dialect _⟩,
      ⟨_, List.mem_of_getElem? (i := 4) rfl, string?_plain _ _, notices_seed _⟩⟩
  rw [load, hread]
  rfl

/-- Saved settings are loaded back from the UTF-8 of their text, which nothing but blanks may follow
and of which nothing may be missing. -/
theorem load_saveBytes (settings : Settings) :
    settings.saveBytes = encoded settings.save.toList ∧
      load settings.saveBytes = .ok settings ∧
      (∀ front, front <+: settings.saveBytes → front ≠ settings.saveBytes →
        load front = .error .truncated) ∧
      (∀ blanks, Blank blanks → load (settings.saveBytes ++ blanks) = .ok settings) ∧
      ∀ tail, ¬ Blank tail → load (settings.saveBytes ++ tail) = .error .invalid := by
  have hspaced := spaced_saveBytes settings
  have hblanks : ∀ blanks, Blank blanks → load (settings.saveBytes ++ blanks) = .ok settings :=
    fun blanks hblanks => (load_eq_ok_iff hspaced hblanks).mpr (writtenIn_members settings)
  refine ⟨saveBytes_eq_encoded settings, ?_, ?_, hblanks, ?_⟩
  · have hload := hblanks [] blank_nil
    rwa [List.append_nil] at hload
  · rintro front ⟨back, hback⟩ hne
    refine load_cut settings ⟨back, ?_, hback.symm⟩
    rintro rfl
    exact hne (by rw [← hback, List.append_nil])
  · intro tail htail
    rw [load_append hspaced, atEnd_of_not_blank htail]
    cases SettingsDraft.meaning (.object settings.members) <;> rfl

/-- A text that is cut within a number is no text of smaller settings. -/
theorem load_saveBytes_seeded :
    let settings : Settings := { dialect := .cosmacVip, seed := some 0xFFFFFFFFFFFFFFFF }
    load settings.saveBytes = .ok settings ∧
      load (settings.saveBytes.take 31) = .error .truncated ∧
      load (settings.saveBytes ++ [0x0A]) = .ok settings ∧
      load (settings.saveBytes ++ [closeBrace]) = .error .invalid := by
  intro settings
  obtain ⟨-, hload, hfront, hblanks, htail⟩ := load_saveBytes settings
  refine ⟨hload, hfront _ (List.take_prefix 31 _) ?_, hblanks _ ?_, htail _ ?_⟩
  · have hspeed : (asciiWord (quoted speedKey)).length = 23 := by decide
    have hprogram : (asciiWord (quoted programStartKey)).length = 23 := by decide
    have hlong : 31 < settings.saveBytes.length := by
      simp only [saveBytes, save, objectText, asciiWord_append, asciiWord_memberLines,
        List.length_append, hspeed, hprogram]
      omega
    intro hsame
    have hlength := congrArg List.length hsame
    rw [List.length_take] at hlength
    omega
  · exact List.forall_mem_singleton.mpr rfl
  · exact fun hblank => absurd (hblank closeBrace (List.mem_singleton_self _)) (by decide)

end Settings

end Chip8
