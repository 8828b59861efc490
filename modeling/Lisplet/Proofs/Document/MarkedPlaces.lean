import Lisplet.Proofs.Document.DefinedNames
import Lisplet.Proofs.Document.Places

/-!
# What an index points at

Every place in the index of a document is the place of a lexeme: the name in a definition,
and what a problem marks, which is a parenthesis or the keyword of a form.  No lexeme is
marked by two problems.  Stray parentheses stand in no node; a list that is never closed is
marked at its parenthesis and a wrong number of operands at the keyword behind it, and each
of these belongs to one list only.  So the problems, once they are sorted, stand one behind
the other.
-/

namespace Lisplet

theorem SpecialForm.keyword_ne_paren (form : SpecialForm) :
    form.keyword ≠ Token.opening ∧ form.keyword ≠ Token.closing := by
  cases form <;> decide

namespace Document

open Lisplet.Token

def ProblemCause.marked : ProblemCause → String
  | strayClose => closing
  | unclosed => opening
  | operandCount form _ => form.keyword

@[simp]
theorem ProblemCause.length_marked (cause : ProblemCause) : cause.marked.length = cause.length := by
  cases cause <;> rfl

def Problem.lexeme (problem : Problem) : Lexeme := ⟨problem.cause.marked, problem.place⟩

/-! ## The lexemes of nodes -/

namespace Node

mutual

/-- The lexemes whose places a node knows: words, and the parentheses that open lists. -/
def marks : Node → List Lexeme
  | atom place token => [⟨token, place⟩]
  | list place children _ => ⟨opening, place⟩ :: marksAll children

def marksAll : List Node → List Lexeme
  | [] => []
  | node :: nodes => node.marks ++ marksAll nodes

end

theorem marksAll_eq_flatMap (nodes : List Node) : marksAll nodes = nodes.flatMap marks := by
  induction nodes with
  | nil => rfl
  | cons node nodes ih => rw [marksAll, ih, List.flatMap_cons]

mutual

theorem openPlaces_sublist_marks : (node : Node) →
    (node.openPlaces.map (Lexeme.mk opening)).Sublist node.marks
  | atom .. => List.nil_sublist _
  | list place children closed => by
    have hchildren := openPlacesAll_sublist_marksAll children
    rw [openPlaces, marks]
    cases closed with
    | true => exact hchildren.cons _
    | false => exact hchildren.cons_cons _

theorem openPlacesAll_sublist_marksAll : (nodes : List Node) →
    ((openPlacesAll nodes).map (Lexeme.mk opening)).Sublist (marksAll nodes)
  | [] => List.nil_sublist _
  | node :: nodes => by
    rw [openPlacesAll, List.map_append, marksAll]
    exact (openPlaces_sublist_marks node).append (openPlacesAll_sublist_marksAll nodes)

end

/-- A wrong number of operands is marked at the keyword in front. -/
theorem ownProblems_sublist (place : Place) (token : String) (operands : List Node)
    (closed : Bool) :
    ((ownProblems (.atom place token :: operands) closed).map Problem.lexeme).Sublist
      [⟨token, place⟩] := by
  rw [ownProblems, headForm?]
  cases hform : SpecialForm.ofKeyword? token with
  | none => exact List.nil_sublist _
  | some form =>
      rw [← SpecialForm.keyword_of_ofKeyword? hform]
      dsimp only [Option.map_some]
      split
      · exact .refl _
      · exact List.nil_sublist _

mutual

theorem problems_sublist_marks : (node : Node) →
    (node.problems.map Problem.lexeme).Sublist node.marks
  | atom .. => List.nil_sublist _
  | list _ [] _ => List.nil_sublist _
  | list place (head :: operands) closed => by
    have hhead := problems_sublist_marks head
    have hoperands := problemsAll_sublist_marksAll operands
    rw [problems, marks, marksAll, List.map_append]
    refine List.Sublist.cons _ ?_
    cases head with
    | list =>
        simpa [ownProblems, holdsCode, headForm?, problemsAll] using hhead.append hoperands
    | atom keyword token =>
        refine (ownProblems_sublist keyword token operands closed).append ?_
        split
        · exact hoperands
        · exact List.nil_sublist _

theorem problemsAll_sublist_marksAll : (nodes : List Node) →
    ((problemsAll nodes).map Problem.lexeme).Sublist (marksAll nodes)
  | [] => List.nil_sublist _
  | node :: nodes => by
    rw [problemsAll, List.map_append, marksAll]
    exact (problems_sublist_marks node).append (problemsAll_sublist_marksAll nodes)

end

theorem marks_of_mem_ownProblems {children : List Node} {closed : Bool} :
    ∀ problem ∈ ownProblems children closed,
      problem.cause.marked ≠ opening ∧ problem.cause.marked ≠ closing := by
  intro problem hmem
  rw [ownProblems.eq_def] at hmem
  split at hmem
  · cases hmem
  · next form place hform =>
      dsimp only at hmem
      split at hmem
      · rw [List.mem_singleton.mp hmem]
        exact form.keyword_ne_paren
      · cases hmem

mutual

/-- What the problems of nodes mark are keywords. -/
theorem marked_of_mem_problems : (node : Node) → ∀ problem ∈ node.problems,
    problem.cause.marked ≠ opening ∧ problem.cause.marked ≠ closing
  | atom .., problem, hmem => by cases hmem
  | list place children closed, problem, hmem => by
    rw [problems] at hmem
    rcases List.mem_append.mp hmem with hown | hinner
    · exact marks_of_mem_ownProblems problem hown
    · split at hinner
      · exact marked_of_mem_problemsAll children problem hinner
      · cases hinner

theorem marked_of_mem_problemsAll : (nodes : List Node) → ∀ problem ∈ problemsAll nodes,
    problem.cause.marked ≠ opening ∧ problem.cause.marked ≠ closing
  | [], problem, hmem => by cases hmem
  | node :: nodes, problem, hmem => by
    rw [problemsAll] at hmem
    rcases List.mem_append.mp hmem with hfirst | hlater
    · exact marked_of_mem_problems node problem hfirst
    · exact marked_of_mem_problemsAll nodes problem hlater

end

end Node

/-! ## The lexemes of a reading -/

namespace NodeReading

open Node

@[simp]
theorem marksAll_endAll_cons (node : Node) (children : List Node) (opened : List OpenNode) :
    marksAll (endAll (node :: children) opened) =
      marksAll (endAll children opened) ++ node.marks := by
  simp only [marksAll_eq_flatMap]
  exact flatMap_endAll_cons (fun place children => by simp [marks, marksAll_eq_flatMap]) node
    children opened

/-- What is read on is marked behind what has been read. -/
theorem marksAll_readFrom (children : List Node) (opened : List OpenNode)
    (lexemes : List Lexeme) :
    (marksAll (readFrom children opened lexemes).nodes).Sublist
      (marksAll (endAll children opened) ++ lexemes) := by
  fun_induction readFrom children opened lexemes with
  | case1 children opened => simp
  | case2 children opened lexeme lexemes hopening ih =>
      rw [endAll, marksAll_endAll_cons] at ih
      have hlexeme : lexeme = ⟨opening, lexeme.place⟩ := by rw [← hopening]
      rw [hlexeme]
      simpa [marks, marksAll] using ih
  | case3 children lexeme lexemes hopening hclosing later ih =>
      exact ih.trans ((List.Sublist.refl _).append (List.sublist_cons_self ..))
  | case4 children lexeme lexemes hopening hclosing node outer ih =>
      rw [marksAll_endAll_cons] at ih
      rw [endAll, marksAll_endAll_cons]
      exact ih.trans ((List.Sublist.refl _).append (List.sublist_cons_self ..))
  | case5 children opened lexeme lexemes hopening hclosing ih =>
      rw [marksAll_endAll_cons] at ih
      simpa [marks] using ih

theorem marksAll_ofDocument (cs : List Char) :
    (marksAll (ofDocument cs).nodes).Sublist (Lexeme.scan cs) :=
  marksAll_readFrom [] [] (Lexeme.scan cs)

/-- The stray parentheses are problems in the order in which they are read. -/
theorem strays_readFrom (children : List Node) (opened : List OpenNode)
    (lexemes : List Lexeme) :
    (((readFrom children opened lexemes).problems.filter (·.cause = .strayClose)).map
      Problem.lexeme).Sublist lexemes := by
  fun_induction readFrom children opened lexemes with
  | case1 children opened => simp
  | case2 children opened lexeme lexemes hopening ih => exact ih.cons _
  | case3 children lexeme lexemes hopening hclosing later ih =>
      have hlexeme : lexeme = ⟨closing, lexeme.place⟩ := by rw [← hclosing]
      rw [List.filter_cons_of_pos (by simp), List.map_cons, hlexeme]
      exact ih.cons_cons _
  | case4 children lexeme lexemes hopening hclosing node outer ih => exact ih.cons _
  | case5 children opened lexeme lexemes hopening hclosing ih => exact ih.cons _

/-- Reading finds nothing wrong but stray parentheses and lists that are never closed. -/
theorem cause_of_mem_readFrom {children : List Node} {opened : List OpenNode}
    {lexemes : List Lexeme} :
    ∀ problem ∈ (readFrom children opened lexemes).problems,
      problem.cause = .strayClose ∨ problem.cause = .unclosed := by
  fun_induction readFrom children opened lexemes with
  | case1 children opened => simp
  | case2 children opened lexeme lexemes hopening ih => exact ih
  | case3 children lexeme lexemes hopening hclosing later ih =>
      exact List.forall_mem_cons.mpr ⟨.inl rfl, ih⟩
  | case4 children lexeme lexemes hopening hclosing node outer ih => exact ih
  | case5 children opened lexeme lexemes hopening hclosing ih => exact ih

end NodeReading

/-! ## The problems of a document -/

def problemsOf (cs : List Char) : List Problem :=
  let reading := NodeReading.ofDocument cs
  reading.problems ++ Node.problemsAll reading.nodes

/-- The problems of a reading mark the stray parentheses and the lists that are never
closed. -/
theorem NodeReading.perm_lexeme_problems (cs : List Char) :
    ((ofDocument cs).problems.map Problem.lexeme).Perm
      ((((ofDocument cs).problems.filter (·.cause = .strayClose)).map Problem.lexeme) ++
        (Node.openPlacesAll (ofDocument cs).nodes).map (Lexeme.mk opening)) := by
  have hrest : (ofDocument cs).problems.filter
        (fun problem => !decide (problem.cause = .strayClose)) =
      (ofDocument cs).problems.filter (·.cause = .unclosed) := by
    refine List.filter_congr fun problem hmem => ?_
    rcases cause_of_mem_readFrom problem hmem with hcause | hcause <;> simp [hcause]
  have hperm := (List.filter_append_perm (fun problem : Problem => problem.cause = .strayClose)
    (ofDocument cs).problems).symm.map Problem.lexeme
  rw [hrest, filter_unclosed_ofDocument, List.map_append, List.map_map] at hperm
  exact hperm

/-- Every problem marks a lexeme of the document, and no two mark the same. -/
theorem lexeme_problemsOf (cs : List Char) :
    ((problemsOf cs).map Problem.lexeme).Nodup ∧
      ∀ problem ∈ problemsOf cs, problem.lexeme ∈ Lexeme.scan cs := by
  have hmarks := NodeReading.marksAll_ofDocument cs
  have hstrays := NodeReading.strays_readFrom [] [] (Lexeme.scan cs)
  have hunclosed :=
    (Node.openPlacesAll_sublist_marksAll (NodeReading.ofDocument cs).nodes).trans hmarks
  have hcounts :=
    (Node.problemsAll_sublist_marksAll (NodeReading.ofDocument cs).nodes).trans hmarks
  have hperm := (NodeReading.perm_lexeme_problems cs).append_right
    ((Node.problemsAll (NodeReading.ofDocument cs).nodes).map Problem.lexeme)
  rw [← List.map_append] at hperm
  have hcount : ∀ l ∈ (Node.problemsAll (NodeReading.ofDocument cs).nodes).map Problem.lexeme,
      l.token ≠ opening ∧ l.token ≠ closing := by
    rw [List.forall_mem_map]
    exact Node.marked_of_mem_problemsAll _
  have hstray : ∀ l ∈ ((NodeReading.ofDocument cs).problems.filter
      (·.cause = .strayClose)).map Problem.lexeme, l.token = closing := by
    rw [List.forall_mem_map]
    intro problem hmem
    have hcause : problem.cause = .strayClose := by simpa using List.of_mem_filter hmem
    rw [Problem.lexeme, hcause]
    rfl
  have hopen : ∀ l ∈ (Node.openPlacesAll (NodeReading.ofDocument cs).nodes).map
      (Lexeme.mk opening), l.token = opening := by simp
  constructor
  · -- the three kinds of problems mark different tokens, each kind in the order of the text
    refine hperm.nodup_iff.mpr (List.nodup_append.mpr ⟨List.nodup_append.mpr
      ⟨hstrays.nodup (Lexeme.nodup_scan cs), hunclosed.nodup (Lexeme.nodup_scan cs), ?_⟩,
      hcounts.nodup (Lexeme.nodup_scan cs), ?_⟩)
    · rintro l hl other hother rfl
      exact closing_ne_opening ((hstray l hl).symm.trans (hopen l hother))
    · rintro l hl other hother rfl
      rcases List.mem_append.mp hl with hl | hl
      · exact (hcount l hother).2 (hstray l hl)
      · exact (hcount l hother).1 (hopen l hl)
  · intro problem hmem
    rcases List.mem_append.mp (hperm.subset (List.mem_map_of_mem hmem)) with hread | hcounted
    · rcases List.mem_append.mp hread with hl | hl
      · exact hstrays.subset hl
      · exact hunclosed.subset hl
    · exact hcounts.subset hcounted

/-! ## The index -/

namespace Index

variable {limit : Nat} {cs : List Char} {index : Index}

theorem problems_of_ofDocument (h : ofDocument limit cs = .ok index) :
    index.problems = (problemsOf cs).mergeSort fun a b => a.place.le b.place := by
  rw [ofDocument] at h
  dsimp only at h
  split at h
  · cases h
    rfl
  · cases h

/-- A problem of an index marks a lexeme. -/
theorem lexeme_mem_scan (h : ofDocument limit cs = .ok index) {problem : Problem}
    (hmem : problem ∈ index.problems) : problem.lexeme ∈ Lexeme.scan cs := by
  rw [problems_of_ofDocument h, List.mem_mergeSort] at hmem
  exact (lexeme_problemsOf cs).2 problem hmem

/-- The problems of an index stand one behind the other. -/
theorem pairwise_problems (h : ofDocument limit cs = .ok index) :
    index.problems.Pairwise fun a b => a.place.Before b.place := by
  have hsorted : index.problems.Pairwise fun a b => a.place.le b.place = true := by
    rw [problems_of_ofDocument h]
    apply List.pairwise_mergeSort
    · exact fun a b c hab hbc => Place.le_trans hab hbc
    · exact fun a b => Place.le_total a.place b.place
  have hnodup : (index.problems.map Problem.lexeme).Nodup := by
    rw [problems_of_ofDocument h]
    exact ((List.mergeSort_perm _ _).map Problem.lexeme).nodup_iff.mpr (lexeme_problemsOf cs).1
  refine (hsorted.and (List.pairwise_map.mp hnodup)).imp_of_mem fun {a b} ha hb hboth => ?_
  -- of two lexemes one comes first, and the order excludes that it is the second
  have heither := Lexeme.before_or_before (lexeme_mem_scan h ha) (lexeme_mem_scan h hb) hboth.2
  exact heither.resolve_right (Place.le_iff.mp hboth.1)

/-- The name that a definition defines is a lexeme, the second one of its node. -/
theorem definition_mem_scan (h : ofDocument limit cs = .ok index) {definition : Definition}
    (hmem : definition ∈ index.definitions) :
    ⟨definition.name, definition.place⟩ ∈ Lexeme.scan cs := by
  obtain ⟨front, node, back, hnodes, hnode, -⟩ := exists_node_of_mem h hmem
  obtain ⟨start, keyword, value, closed, rfl, -⟩ := Definition.exists_list_of_ofNode? hnode
  rw [(ofDocument_ok h).1] at hnodes
  apply (NodeReading.marksAll_ofDocument cs).subset
  rw [hnodes]
  simp [Node.marksAll_eq_flatMap, Node.marks, Node.marksAll]

/-- Every place of an index points at its text.  A definition points at its name, which
stands behind the keyword of the last top-level form that defines it; a problem points at
what it marks, and the problems stand one behind the other. -/
theorem points_at_tokens (h : ofDocument limit cs = .ok index) :
    index.nodes = (NodeReading.ofDocument cs).nodes ∧
      (∀ definition ∈ index.definitions,
        definition.place.PointsAt cs definition.name.toList ∧
        ∃ front start keyword value closed back,
          index.nodes = front ++ .list start (.atom keyword SpecialForm.definition.keyword ::
            .atom definition.place definition.name :: value) closed :: back ∧
          ∀ later ∈ back, ∀ other, Definition.ofNode? later = some other →
            other.name ≠ definition.name) ∧
      (∀ problem ∈ index.problems,
        problem.place.PointsAt cs problem.cause.marked.toList ∧
        problem.cause.marked.length = problem.cause.length) ∧
      index.problems.Pairwise fun a b => a.place.Before b.place := by
  refine ⟨(ofDocument_ok h).1, fun definition hmem => ⟨?_, ?_⟩, fun problem hmem => ⟨?_, ?_⟩,
    pairwise_problems h⟩
  · exact Lexeme.pointsAt_of_mem_scan (definition_mem_scan h hmem)
  · obtain ⟨front, node, back, hnodes, hnode, hlast⟩ := exists_node_of_mem h hmem
    obtain ⟨start, keyword, value, closed, rfl, -⟩ := Definition.exists_list_of_ofNode? hnode
    exact ⟨front, start, keyword, value, closed, back, hnodes, hlast⟩
  · exact Lexeme.pointsAt_of_mem_scan (lexeme_mem_scan h hmem)
  · exact problem.cause.length_marked

/-- A document with a definition that is made twice, a form with too few operands, a stray
parenthesis and a list that is never closed. -/
theorem points_at_tokens_faulty :
    let cs := "(define f 1)\n(define f (if 2))\n ) (g".toList
    ∃ index, ofDocument 10 cs = .ok index ∧
      index.definitions = [⟨"f", ⟨21, 1, 8⟩, none⟩] ∧
      index.problems = [⟨.operandCount .conditional 1, ⟨24, 1, 11⟩⟩, ⟨.strayClose, ⟨32, 2, 1⟩⟩,
        ⟨.unclosed, ⟨34, 2, 3⟩⟩] ∧
      (⟨21, 1, 8⟩ : Place).PointsAt cs ['f'] ∧
      (⟨24, 1, 11⟩ : Place).PointsAt cs ['i', 'f'] ∧
      (⟨32, 2, 1⟩ : Place).PointsAt cs [')'] ∧
      (⟨34, 2, 3⟩ : Place).PointsAt cs ['('] ∧
      index.problems.Pairwise fun a b => a.place.Before b.place := by
  intro cs
  obtain ⟨index, hindex⟩ : ∃ index, ofDocument 10 cs = .ok index := by
    rw [ofDocument]
    exact ⟨_, if_pos (by decide +kernel)⟩
  have hdefinitions : index.definitions = [⟨"f", ⟨21, 1, 8⟩, none⟩] := by
    rw [(ofDocument_ok hindex).2, (ofDocument_ok hindex).1]
    decide +kernel
  have hproblems : index.problems = [⟨.operandCount .conditional 1, ⟨24, 1, 11⟩⟩,
      ⟨.strayClose, ⟨32, 2, 1⟩⟩, ⟨.unclosed, ⟨34, 2, 3⟩⟩] := by
    have hfound : problemsOf cs = [⟨.strayClose, ⟨32, 2, 1⟩⟩, ⟨.unclosed, ⟨34, 2, 3⟩⟩,
        ⟨.operandCount .conditional 1, ⟨24, 1, 11⟩⟩] := by decide +kernel
    rw [problems_of_ofDocument hindex, hfound]
    simp [List.mergeSort, List.MergeSort.Internal.splitInTwo, Place.le]
  obtain ⟨-, hdefined, hmarked, hpairwise⟩ := points_at_tokens hindex
  have hname := (hdefined _ (by rw [hdefinitions]; exact List.mem_singleton_self _)).1
  have hmarks (problem : Problem) (hmem : problem ∈ index.problems) :
      problem.place.PointsAt cs problem.cause.marked.toList := (hmarked problem hmem).1
  rw [hproblems] at hmarks
  simp only [List.forall_mem_cons] at hmarks
  obtain ⟨hcount, hstray, hunclosed, -⟩ := hmarks
  exact ⟨index, hindex, hdefinitions, hproblems, hname, hcount, hstray, hunclosed, hpairwise⟩

end Index

end Document

end Lisplet
