import Lisplet.Document.Workspace
import Lisplet.Proofs.Document.MarkedPlaces
import Lisplet.Proofs.Document.WordsAtCursors

/-!
# What is shown at a cursor

In a document whose blanks are of the common kinds, a cursor in a word or at one of its
ends finds this word, and what is shown is the last definition of it in the text, with the
place of the name.  At a cursor that touches no word nothing is shown.
-/

namespace Lisplet

theorem SpecialForm.ofKeyword?_eq_none {name : String}
    (h : ∀ form : SpecialForm, form.keyword ≠ name) : ofKeyword? name = none :=
  List.find?_eq_none.mpr fun form _ => by simpa using h form

theorem Primitive.ofName?_eq_none {name : String}
    (h : ∀ operation : Primitive, operation.name ≠ name) : ofName? name = none :=
  List.find?_eq_none.mpr fun operation _ => by simpa using h operation

theorem Primitive.mem_all (operation : Primitive) : operation ∈ all := by
  cases operation with
  | arithmetic operation => cases operation <;> decide
  | comparison relation => cases relation <;> decide
  | variant test => cases test <;> decide
  | _ => decide

/-- A name that none of the listed built-in names is, is none at all. -/
theorem forall_ne_of_forall_mem_all {name : String}
    (h : (∀ form ∈ SpecialForm.all, form.keyword ≠ name) ∧
      ∀ operation ∈ Primitive.all, operation.name ≠ name) :
    (∀ form : SpecialForm, form.keyword ≠ name) ∧
      ∀ operation : Primitive, operation.name ≠ name :=
  ⟨fun form => h.1 form form.mem_all, fun operation => h.2 operation operation.mem_all⟩

namespace Document

open Lisplet.Token

/-- The blanks of a text are spaces, tabs and line ends, and a line ends with a line feed or
with a carriage return and a line feed. -/
structure PlainBlanks (cs : List Char) : Prop where
  blanks : ∀ c ∈ cs, Text.isBlank c = true → c = ' ' ∨ c = '\t' ∨ c = '\n' ∨ c = '\r'
  lineEnds : Text.PlainLineEnds cs

instance decidablePlainBlanks (cs : List Char) : Decidable (PlainBlanks cs) :=
  have := List.decidableBAll
    (fun c => Text.isBlank c = true → c = ' ' ∨ c = '\t' ∨ c = '\n' ∨ c = '\r') cs
  decidable_of_iff (_ ∧ Text.PlainLineEnds cs)
    ⟨fun h => ⟨h.1, h.2⟩, fun h => ⟨h.blanks, h.lineEnds⟩⟩

/-! ## Words in a plain text -/

/-- Where the characters on both sides of an offset belong to no word. -/
structure TouchesNoWord (cs : List Char) (offset : Nat) : Prop where
  before : ∀ c ∈ (cs.take offset).getLast?, isInner c = false
  after : ∀ c ∈ (cs.drop offset).head?, isInner c = false

instance decidableTouchesNoWord (cs : List Char) (offset : Nat) :
    Decidable (TouchesNoWord cs offset) :=
  have := Option.decidableForallMem (p := fun c => isInner c = false) (cs.take offset).getLast?
  have := Option.decidableForallMem (p := fun c => isInner c = false) (cs.drop offset).head?
  decidable_of_iff (_ ∧ _) ⟨fun h => ⟨h.1, h.2⟩, fun h => ⟨h.before, h.after⟩⟩

namespace PlainBlanks

variable {cs : List Char}

/-- What belongs to no word ends the word at a cursor. -/
theorem endsWord (h : PlainBlanks cs) {c : Char} (hmem : c ∈ cs) (hc : isInner c = false) :
    endsWord c = true := by
  by_cases hblank : Text.isBlank c = true
  · rcases h.blanks c hmem hblank with rfl | rfl | rfl | rfl <;> decide
  · by_contra hends
    rw [← Bool.not_eq_true, isInner_eq_true_iff] at hc
    refine hc ⟨Bool.not_eq_true _ ▸ hblank, ?_, ?_⟩ <;> (rintro rfl; exact hends (by decide))

/-- In front of a lexeme lines end plainly. -/
theorem lineEnds_take (h : PlainBlanks cs) {l : Lexeme} (hl : l ∈ Lexeme.scan cs) :
    Text.PlainLineEnds (cs.take l.place.offset) := by
  obtain ⟨front, back, hcs, hne, -, hfront, -⟩ := Lexeme.exists_cut hl
  have hlines := h.lineEnds
  rw [hfront]
  rw [hcs] at hlines
  refine hlines.of_append ?_
  rw [List.head?_append_of_ne_nil _ hne]
  intro hfeed
  have hblank := (tiles_scan cs).isBlank_of_mem_token hl '\n' (List.mem_of_mem_head? hfeed)
  revert hblank
  decide

end PlainBlanks

namespace Lexeme

variable {cs : List Char} {l : Lexeme}

/-- The characters next to a word belong to no word. -/
theorem isInner_beside (hl : l ∈ scan cs) (hword : l.token ≠ opening ∧ l.token ≠ closing) :
    (∀ c ∈ (cs.take l.place.offset).getLast?, isInner c = false) ∧
      ∀ c ∈ (cs.drop (l.place.offset + l.token.length)).head?, isInner c = false := by
  have hsolid := solid_token hl hword
  obtain ⟨front, back, hcs, hne, hplace, hfront, hback⟩ := exists_cut hl
  have hoffset : l.place.offset = front.length := by rw [hplace]
  have hlength : l.token.length = l.token.toList.length := String.length_toList.symm
  have hcovers {i : Nat} {c d : Char} (hi : cs[i]? = some c) (hnext : cs[i + 1]? = some d)
      (hc : isInner c = true) (hd : isInner d = true) : l.Covers i ↔ l.Covers (i + 1) := by
    have hiff := (tiles_scan cs).covers_succ_iff hl hi hnext hc hd
    rwa [show Place.start.offset + i = i from Nat.zero_add i] at hiff
  rw [hfront, hback]
  constructor
  · intro c hc
    by_contra hinner
    rw [Bool.not_eq_false] at hinner
    obtain ⟨earlier, rfl⟩ := List.getLast?_eq_some_iff.mp hc
    obtain ⟨d, token, htoken⟩ := List.exists_cons_of_ne_nil hne
    have hd := hsolid.inner d (by rw [htoken]; exact List.mem_cons_self)
    have hiff := hcovers (i := earlier.length) (by simp [hcs]) (by simp [hcs, htoken]) hinner hd
    simp only [Covers, hlength, hoffset, htoken, List.length_append, List.length_cons,
      List.length_nil] at hiff
    omega
  · intro c hc
    by_contra hinner
    rw [Bool.not_eq_false] at hinner
    obtain ⟨later, rfl⟩ := List.head?_eq_some_iff.mp hc
    obtain ⟨token, d, htoken⟩ := (List.eq_nil_or_concat' _).resolve_left hne
    have hd := hsolid.inner d (by rw [htoken]; simp)
    have hiff := hcovers (i := front.length + token.length) (by simp [hcs, htoken])
      (by simp [hcs, htoken, Nat.add_assoc]) hd hinner
    simp only [Covers, hlength, hoffset, htoken, List.length_append, List.length_cons,
      List.length_nil] at hiff
    omega

/-- In a plain text a word is found at its cursors. -/
theorem wordAt_of_plainBlanks (hplain : PlainBlanks cs) (hl : l ∈ scan cs)
    (hword : l.token ≠ opening ∧ l.token ≠ closing) {c : Nat} (hfrom : l.place.column ≤ c)
    (hto : c ≤ l.place.column + l.token.length) :
    wordAt cs l.place.line c = .ok (some l.token, l.place.column) := by
  obtain ⟨hbefore, hafter⟩ := isInner_beside hl hword
  have hfree : l.StandsFree cs :=
    ⟨fun d hd => hplain.endsWord (List.mem_of_mem_take (List.mem_of_mem_getLast? hd))
        (hbefore d hd),
      fun d hd => hplain.endsWord (List.mem_of_mem_drop (List.mem_of_mem_head? hd))
        (hafter d hd)⟩
  exact wordAt_of_standsFree hl hword (hplain.lineEnds_take hl) hfree hfrom hto

/-- At a cursor in a lexeme that touches no word, there is none. -/
theorem wordAt_of_touchesNoWord (hplain : PlainBlanks cs) (hl : l ∈ scan cs) {k : Nat}
    (hk : k ≤ l.token.length) (htouches : TouchesNoWord cs (l.place.offset + k)) :
    ∃ start, wordAt cs l.place.line (l.place.column + k : Nat) = .ok (none, start) := by
  obtain ⟨front, back, hcs, hne, hplace, hfront, -⟩ := exists_cut hl
  have hoffset : l.place.offset = front.length := by rw [hplace]
  have hends : ∀ c ∈ l.token.toList, Text.isLineEnd c = false :=
    fun c hc => isLineEnd_eq_false ((tiles_scan cs).isBlank_of_mem_token hl c hc)
  have hfeed : '\n' ∉ l.token.toList.take k := by
    intro hmem
    have hline := hends '\n' (List.mem_of_mem_take hmem)
    revert hline
    decide
  have hlines := hplain.lineEnds_take hl
  rw [hfront] at hlines
  rw [← String.length_toList] at hk
  obtain ⟨onward, honward, hat⟩ :=
    Document.exists_wordAt hlines hne hends back hk
  have htake : cs.take (l.place.offset + k) = front ++ l.token.toList.take k := by
    rw [hoffset, hcs, List.take_length_add_append, List.take_append_of_le_length hk]
  have hdrop : cs.drop (l.place.offset + k) = l.token.toList.drop k ++ back := by
    rw [hoffset, hcs, List.drop_length_add_append, List.drop_append_of_le_length hk]
  have hleft : (Text.sinceFeed front ++ l.token.toList.take k).rtakeWhile
      (!Document.endsWord ·) = [] := by
    rw [← Text.sinceFeed_append hfeed, Text.rtakeWhile_sinceFeed (by decide), ← htake,
      rtakeWhile_eq_nil_iff_getLast?]
    intro c hc
    simpa using hplain.endsWord (List.mem_of_mem_take (List.mem_of_mem_getLast? hc))
      (htouches.before c hc)
  have hright : (l.token.toList.drop k ++ onward).takeWhile (!Document.endsWord ·) = [] := by
    rw [takeWhile_eq_nil_iff_head?, List.head?_append, honward, ← List.head?_append, ← hdrop]
    intro c hc
    simpa using hplain.endsWord (List.mem_of_mem_drop (List.mem_of_mem_head? hc))
      (htouches.after c hc)
  rw [hplace]
  dsimp only at hat ⊢
  rw [← hcs, wordInLine_append, hleft, hright] at hat
  exact ⟨_, hat⟩

end Lexeme

/-! ## The definitions of a name -/

namespace Definition

theorem find?_merge (definitions : List Definition) (definition : Definition) (word : String) :
    (merge definitions definition).find? (·.name == word) =
      if definition.name = word then some definition
      else definitions.find? (·.name == word) := by
  induction definitions with
  | nil => by_cases hname : definition.name = word <;> simp [merge, hname]
  | cons other rest ih =>
      rw [merge]
      by_cases hsame : other.name = definition.name
      · rw [if_pos hsame, List.find?_cons, List.find?_cons, hsame]
        by_cases hname : definition.name = word
        · rw [if_pos hname, beq_iff_eq.mpr hname]
        · rw [if_neg hname, beq_eq_false_iff_ne.mpr hname]
      · rw [if_neg hsame, List.find?_cons, List.find?_cons, ih]
        by_cases hother : other.name = word
        · have hname : definition.name ≠ word := fun hname => hsame (hother.trans hname.symm)
          simp only [beq_iff_eq.mpr hother, if_neg hname]
        · rw [beq_eq_false_iff_ne.mpr hother]

/-- The definition that is left of a name is the last one. -/
@[simp]
theorem find?_mergeAll (definitions : List Definition) (word : String) :
    (mergeAll definitions).find? (·.name == word) = definitions.reverse.find? (·.name == word) := by
  induction definitions using List.reverseRecOn with
  | nil => rfl
  | append_singleton definitions definition ih =>
      rw [mergeAll_concat, find?_merge, ih, List.reverse_append, List.reverse_singleton,
        List.singleton_append, List.find?_cons]
      by_cases hname : definition.name = word
      · rw [if_pos hname, beq_iff_eq.mpr hname]
      · rw [if_neg hname, beq_eq_false_iff_ne.mpr hname]

end Definition

namespace Index

variable {limit : Nat} {cs : List Char} {index : Index} {word : String}

def LastDefines (index : Index) (word : String) (definition : Definition) : Prop :=
  ∃ front node back, index.nodes = front ++ node :: back ∧
    Definition.ofNode? node = some definition ∧ definition.name = word ∧
    ∀ later ∈ back, ∀ other, Definition.ofNode? later = some other → other.name ≠ word

theorem definition?_of_lastDefines (h : ofDocument limit cs = .ok index)
    {definition : Definition} (hlast : index.LastDefines word definition) :
    index.definition? word = some definition := by
  obtain ⟨front, node, back, hnodes, hnode, hname, hlater⟩ := hlast
  have hback : (back.filterMap Definition.ofNode?).reverse.find? (·.name == word) = none := by
    rw [List.find?_eq_none]
    intro other hother
    obtain ⟨later, hmem, hdefines⟩ := List.mem_filterMap.mp (List.mem_reverse.mp hother)
    simpa using hlater later hmem other hdefines
  rw [definition?, (ofDocument_ok h).2, Definition.find?_mergeAll, hnodes, List.filterMap_append,
    List.filterMap_cons_some hnode, List.reverse_append, List.reverse_cons, List.append_assoc,
    List.find?_append, hback, Option.none_or, List.singleton_append, List.find?_cons,
    beq_iff_eq.mpr hname]

theorem definition?_eq_none (h : ofDocument limit cs = .ok index)
    (hnone : ∀ node ∈ index.nodes, ∀ definition, Definition.ofNode? node = some definition →
      definition.name ≠ word) :
    index.definition? word = none := by
  rw [definition?, (ofDocument_ok h).2, Definition.find?_mergeAll, List.find?_eq_none]
  intro definition hmem
  obtain ⟨node, hnode, hdefines⟩ := List.mem_filterMap.mp (List.mem_reverse.mp hmem)
  simpa using hnone node hnode definition hdefines

theorem lastDefines_of_mem (h : ofDocument limit cs = .ok index) {definition : Definition}
    (hmem : definition ∈ index.definitions) : index.LastDefines definition.name definition := by
  obtain ⟨front, node, back, hnodes, hnode, hlast⟩ := exists_node_of_mem h hmem
  exact ⟨front, node, back, hnodes, hnode, rfl, hlast⟩

/-- What is shown of a name that is no built-in one. -/
theorem hoverText_of_definition? (hform : ∀ form : SpecialForm, form.keyword ≠ word)
    (hprimitive : ∀ operation : Primitive, operation.name ≠ word) :
    index.hoverText word = (index.definition? word).map fun definition =>
      definition.signature ++ " (defined at " ++ toString (definition.place.line + 1) ++ ":" ++
        toString (definition.place.column + 1) ++ ")" := by
  rw [hoverText, SpecialForm.ofKeyword?_eq_none hform]
  dsimp only
  rw [Primitive.ofName?_eq_none hprimitive]

end Index

/-! ## Requests -/

namespace Server

variable {limit : Nat} {server : Server} {source : String → String} {address : String}
  {index : Index}

/-- The answer to a request when the word at the cursor is known. -/
theorem attend_hover_of_wordAt (limit : Nat) {line c : Nat} {word : Option String} {start : Int}
    (hstored : server.index? address = some index)
    (hat : wordAt (source address).toList line c = .ok (word, start)) :
    server.attend limit source (.hover address line c) =
      (.ok (.hover (word.bind index.hoverText)), server) := by
  rw [attend, hover, hstored]
  dsimp only
  rw [hat]
  rfl

/-- In an open document with plain blanks, a word that is no built-in name is explained at
every cursor from its first character to behind its last one: by the last top-level form
that defines it, with the place of the name in this form, or not at all if there is none.
At a cursor in any lexeme that touches no word, nothing is shown. -/
theorem hover_explains_words (hindex : Index.ofDocument limit (source address).toList = .ok index)
    (hstored : server.index? address = some index)
    (hplain : PlainBlanks (source address).toList) {l : Lexeme}
    (hl : l ∈ Lexeme.scan (source address).toList) {k : Nat} (hk : k ≤ l.token.length) :
    let shown := server.attend limit source (.hover address l.place.line (l.place.column + k : Nat))
    (l.token ≠ opening ∧ l.token ≠ closing → (∀ form : SpecialForm, form.keyword ≠ l.token) →
      (∀ operation : Primitive, operation.name ≠ l.token) →
        (∀ definition, index.LastDefines l.token definition →
          definition.place.PointsAt (source address).toList l.token.toList ∧
          shown = (.ok (.hover (some (definition.signature ++ " (defined at " ++
            toString (definition.place.line + 1) ++ ":" ++
            toString (definition.place.column + 1) ++ ")"))), server)) ∧
        ((∀ node ∈ index.nodes, ∀ definition, Definition.ofNode? node = some definition →
            definition.name ≠ l.token) →
          shown = (.ok (.hover none), server))) ∧
      (TouchesNoWord (source address).toList (l.place.offset + k) →
        shown = (.ok (.hover none), server)) := by
  refine ⟨fun hword hform hprimitive => ?_, fun htouches => ?_⟩
  · have hat := Lexeme.wordAt_of_plainBlanks hplain hl hword (Nat.le_add_right l.place.column k)
      (Nat.add_le_add_left hk _)
    have hanswer := attend_hover_of_wordAt limit hstored hat
    rw [Option.bind_some, Index.hoverText_of_definition? hform hprimitive] at hanswer
    constructor
    · intro definition hlast
      have hfound := Index.definition?_of_lastDefines hindex hlast
      have hmem := Index.definition_mem_scan hindex (List.mem_of_find?_eq_some hfound)
      obtain ⟨-, -, -, -, -, hname, -⟩ := hlast
      rw [hname] at hmem
      exact ⟨Lexeme.pointsAt_of_mem_scan hmem, by rw [hanswer, hfound]; rfl⟩
    · intro hnone
      rw [hanswer, Index.definition?_eq_none hindex hnone]
      rfl
  · obtain ⟨start, hat⟩ := Lexeme.wordAt_of_touchesNoWord hplain hl hk htouches
    exact attend_hover_of_wordAt limit hstored hat

/-- A procedure that is defined on the first line and called on the second, with the cursor
behind its name, and with the cursor in parentheses that hold a blank. -/
theorem hover_explains_words_call :
    let text := "(define f (lambda (x) x))\r\n(f ( ) 1)"
    ∃ index, Index.ofDocument 10 text.toList = .ok index ∧ PlainBlanks text.toList ∧
      ⟨"f", 28, 1, 1⟩ ∈ Lexeme.scan text.toList ∧ ⟨"(", 30, 1, 3⟩ ∈ Lexeme.scan text.toList ∧
      let server : Server := ⟨[("a", index)], []⟩
      server.attend 10 (fun _ => text) (.hover "a" 1 2) =
          (.ok (.hover (some "(f x) (defined at 1:9)")), server) ∧
        server.attend 10 (fun _ => text) (.hover "a" 1 4) = (.ok (.hover none), server) := by
  intro text
  obtain ⟨index, hindex⟩ : ∃ index, Index.ofDocument 10 text.toList = .ok index := by
    rw [Index.ofDocument]
    exact ⟨_, if_pos (by decide +kernel)⟩
  have hplain : PlainBlanks text.toList := by decide +kernel
  have hcall : ⟨"f", 28, 1, 1⟩ ∈ Lexeme.scan text.toList := by decide +kernel
  have hparen : ⟨"(", 30, 1, 3⟩ ∈ Lexeme.scan text.toList := by decide +kernel
  have hdefinitions : index.definitions = [⟨"f", ⟨8, 0, 8⟩, some ["x"]⟩] := by
    rw [(Index.ofDocument_ok hindex).2, (Index.ofDocument_ok hindex).1]
    decide +kernel
  have hlast : index.LastDefines "f" ⟨"f", ⟨8, 0, 8⟩, some ["x"]⟩ :=
    Index.lastDefines_of_mem hindex (by rw [hdefinitions]; exact List.mem_singleton_self _)
  obtain ⟨hform, hprimitive⟩ := @forall_ne_of_forall_mem_all "f" (by decide)
  refine ⟨index, hindex, hplain, hcall, hparen, ?_⟩
  intro server
  have hstored : server.index? "a" = some index := rfl
  have hat := @hover_explains_words 10 server (fun _ => text) "a" index hindex hstored hplain
  have hname : 1 ≤ "f".length := by decide
  have hbracket : 1 ≤ "(".length := by decide
  exact ⟨(((hat hcall hname).1 (by decide) hform hprimitive).1 _ hlast).2,
    (hat hparen hbracket).2 (by decide +kernel)⟩

/-- A cursor behind a parenthesis can touch the word that follows, which is then explained
although no form defines a parenthesis. -/
theorem hover_explains_neighbour :
    let text := "(define x 1) (x)"
    ∃ index, Index.ofDocument 10 text.toList = .ok index ∧ PlainBlanks text.toList ∧
      ⟨"(", 13, 0, 13⟩ ∈ Lexeme.scan text.toList ∧
      (∀ form : SpecialForm, form.keyword ≠ "(") ∧
      (∀ operation : Primitive, operation.name ≠ "(") ∧
      (∀ node ∈ index.nodes, ∀ definition, Definition.ofNode? node = some definition →
        definition.name ≠ "(") ∧
      let server : Server := ⟨[("a", index)], []⟩
      (server.attend 10 (fun _ => text) (.hover "a" 0 (13 + 1 : Nat))).1 =
        .ok (.hover (some "x (defined at 1:9)")) := by
  intro text
  obtain ⟨index, hindex⟩ : ∃ index, Index.ofDocument 10 text.toList = .ok index := by
    rw [Index.ofDocument]
    exact ⟨_, if_pos (by decide +kernel)⟩
  have hplain : PlainBlanks text.toList := by decide +kernel
  have hparen : ⟨"(", 13, 0, 13⟩ ∈ Lexeme.scan text.toList := by decide +kernel
  have hword : ⟨"x", 14, 0, 14⟩ ∈ Lexeme.scan text.toList := by decide +kernel
  have hdefinitions : index.definitions = [⟨"x", ⟨8, 0, 8⟩, none⟩] := by
    rw [(Index.ofDocument_ok hindex).2, (Index.ofDocument_ok hindex).1]
    decide +kernel
  obtain ⟨hform, hprimitive⟩ := @forall_ne_of_forall_mem_all "(" (by decide)
  refine ⟨index, hindex, hplain, hparen, hform, hprimitive, ?_, ?_⟩
  · rw [(Index.ofDocument_ok hindex).1]
    have hnone : ((NodeReading.ofDocument text.toList).nodes.filterMap Definition.ofNode?).map
        Definition.name = ["x"] := by decide +kernel
    intro node hnode definition hdefines hname
    have hmem := List.mem_map_of_mem (f := Definition.name)
      (List.mem_filterMap.mpr ⟨node, hnode, hdefines⟩)
    rw [hnone, hname] at hmem
    revert hmem
    decide
  · intro server
    have hat := Lexeme.wordAt_of_plainBlanks hplain hword (by decide) (Nat.le_refl _)
      (Nat.le_add_right _ _)
    have hstored : server.index? "a" = some index := rfl
    have hanswer := @attend_hover_of_wordAt server (fun _ => text) "a" index 10 0 14 _ _ hstored hat
    obtain ⟨hform, hprimitive⟩ := @forall_ne_of_forall_mem_all "x" (by decide)
    have hlast : index.LastDefines "x" ⟨"x", ⟨8, 0, 8⟩, none⟩ :=
      Index.lastDefines_of_mem hindex (by rw [hdefinitions]; exact List.mem_singleton_self _)
    rw [Option.bind_some, Index.hoverText_of_definition? hform hprimitive,
      Index.definition?_of_lastDefines hindex hlast] at hanswer
    exact congrArg Prod.fst hanswer

end Server

end Document

end Lisplet
