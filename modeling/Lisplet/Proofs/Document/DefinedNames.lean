import Mathlib.Data.List.Induction
import Mathlib.Data.List.Nodup
import Lisplet.Proofs.Document.CleanIndex
import Lisplet.Proofs.Evaluation.TopLevel

/-!
# The names that a document defines

The index of a document finds definitions by the look of its top-level nodes.  When the
document is evaluated without failure, they are what is bound: every name of the index is
bound afterwards, and what the index takes for a procedure is a closure with the same
parameters at the moment at which its last definition has been evaluated.
-/

namespace Lisplet

@[simp]
theorem SpecialForm.ofHead?_keyword (form : SpecialForm) :
    SpecialForm.ofHead? (.symbol form.keyword) = some form :=
  SpecialForm.ofKeyword?_keyword form

namespace Document

/-! ## The definitions of an index -/

namespace Definition

theorem names_merge (definitions : List Definition) (definition : Definition) :
    (merge definitions definition).map name =
      if definition.name ∈ definitions.map name then definitions.map name
      else definitions.map name ++ [definition.name] := by
  induction definitions with
  | nil => rfl
  | cons other rest ih =>
      rw [merge]
      by_cases hother : other.name = definition.name
      · rw [if_pos hother, List.map_cons, List.map_cons, hother, if_pos (List.mem_cons_self ..)]
      · rw [if_neg hother, List.map_cons, ih, List.map_cons]
        simp only [List.mem_cons, Ne.symm hother, false_or]
        split <;> rfl

theorem nodup_names_merge {definitions : List Definition} (h : (definitions.map name).Nodup)
    (definition : Definition) : ((merge definitions definition).map name).Nodup := by
  rw [names_merge]
  split
  · exact h
  · next hnew => exact List.nodup_append.mpr ⟨h, List.nodup_singleton _, by simpa using hnew⟩

/-- A definition that is added takes the place of the one of the same name. -/
theorem eq_or_ne_of_mem_merge {definitions : List Definition} (h : (definitions.map name).Nodup)
    {definition other : Definition} (hother : other ∈ merge definitions definition) :
    other = definition ∨ other ∈ definitions ∧ other.name ≠ definition.name := by
  induction definitions with
  | nil => exact .inl (List.mem_singleton.mp hother)
  | cons first rest ih =>
      obtain ⟨hfirst, hrest⟩ := List.nodup_cons.mp h
      rw [merge] at hother
      split at hother
      · next hsame =>
          rcases List.mem_cons.mp hother with rfl | hmem
          · exact .inl rfl
          · refine .inr ⟨List.mem_cons_of_mem _ hmem, fun heq => hfirst ?_⟩
            exact List.mem_map.mpr ⟨other, hmem, heq.trans hsame.symm⟩
      · next hdifferent =>
          rcases List.mem_cons.mp hother with rfl | hmem
          · exact .inr ⟨List.mem_cons_self .., hdifferent⟩
          · exact (ih hrest hmem).imp_right fun hold => ⟨List.mem_cons_of_mem _ hold.1, hold.2⟩

def mergeAll (definitions : List Definition) : List Definition := definitions.foldl merge []

@[simp]
theorem mergeAll_concat (definitions : List Definition) (definition : Definition) :
    mergeAll (definitions ++ [definition]) = merge (mergeAll definitions) definition :=
  List.foldl_append ..

theorem nodup_names_mergeAll (definitions : List Definition) :
    ((mergeAll definitions).map name).Nodup := by
  induction definitions using List.reverseRecOn with
  | nil => exact List.nodup_nil
  | append_singleton definitions definition ih =>
      rw [mergeAll_concat]
      exact nodup_names_merge ih definition

/-- Only the last definition of a name is left. -/
theorem exists_last_of_mem_mergeAll {definitions : List Definition} {definition : Definition}
    (h : definition ∈ mergeAll definitions) :
    ∃ front back, definitions = front ++ definition :: back ∧
      ∀ other ∈ back, other.name ≠ definition.name := by
  induction definitions using List.reverseRecOn with
  | nil => cases h
  | append_singleton definitions added ih =>
      rw [mergeAll_concat] at h
      -- the added definition is the last one, of its own name only
      rcases eq_or_ne_of_mem_merge (nodup_names_mergeAll definitions) h with rfl | ⟨hold, hne⟩
      · exact ⟨definitions, [], rfl, by simp⟩
      · obtain ⟨front, back, rfl, hback⟩ := ih hold
        refine ⟨front, back ++ [added], by simp, fun other hother => ?_⟩
        rcases List.mem_append.mp hother with hearlier | hadded
        · exact hback other hearlier
        · rw [List.mem_singleton.mp hadded]
          exact hne.symm

end Definition

namespace Index

variable {limit : Nat} {cs : List Char} {index : Index}

theorem ofDocument_ok (h : ofDocument limit cs = .ok index) :
    index.nodes = (NodeReading.ofDocument cs).nodes ∧
      index.definitions = Definition.mergeAll (index.nodes.filterMap Definition.ofNode?) := by
  rw [ofDocument] at h
  dsimp only at h
  split at h
  · cases h
    exact ⟨rfl, rfl⟩
  · cases h

/-- A definition of an index stands in the last top-level node that defines its name. -/
theorem exists_node_of_mem (h : ofDocument limit cs = .ok index) {definition : Definition}
    (hmem : definition ∈ index.definitions) :
    ∃ front node back, index.nodes = front ++ node :: back ∧
      Definition.ofNode? node = some definition ∧
      ∀ later ∈ back, ∀ other, Definition.ofNode? later = some other →
        other.name ≠ definition.name := by
  rw [(ofDocument_ok h).2] at hmem
  obtain ⟨before, after, hsplit, hlast⟩ := Definition.exists_last_of_mem_mergeAll hmem
  obtain ⟨front, rest, hnodes, -, hrest⟩ := List.filterMap_eq_append_iff.mp hsplit
  obtain ⟨skipped, node, back, rfl, hskipped, hnode, rfl⟩ := List.filterMap_eq_cons_iff.mp hrest
  refine ⟨front ++ skipped, node, back, by rw [hnodes, List.append_assoc], hnode, ?_⟩
  exact fun later hlater other hother =>
    hlast other (List.mem_filterMap.mpr ⟨later, hlater, hother⟩)

end Index

/-! ## Nodes as code -/

/-- A token that denotes a symbol denotes the symbol of its own text. -/
theorem eq_of_load_ofToken {token name : String} {next : Identity}
    (h : ((Datum.ofToken token).load next).1 = .symbol name) : name = token := by
  rw [Datum.ofToken] at h
  repeat' split at h
  all_goals
    rw [Datum.load] at h
    cases h
  rfl

/-- Nodes that are loaded as symbols are loaded as the symbols of their tokens. -/
theorem loadAll_of_isSymbol {nodes : List Node} {next : Identity}
    (h : ∀ v ∈ (Datum.loadAll (nodes.map Node.datum) next).1, SpecialForm.isSymbol v = true) :
    (Datum.loadAll (nodes.map Node.datum) next).1 = (nodes.filterMap Node.token?).map .symbol := by
  induction nodes generalizing next with
  | nil => rfl
  | cons node nodes ih =>
      rw [List.map_cons, Datum.loadAll] at h ⊢
      obtain ⟨hnode, hnodes⟩ := List.forall_mem_cons.mp h
      cases node with
      | list place children closed => cases hnode
      | atom place token =>
          cases hloaded : ((Node.atom place token).datum.load next).1 with
          | symbol name =>
              dsimp only
              rw [ih hnodes, hloaded, eq_of_load_ofToken hloaded]
              rfl
          | _ =>
              rw [hloaded] at hnode
              cases hnode

namespace Definition

/-- A node that defines a name is a list with the keyword and the name in front. -/
theorem exists_list_of_ofNode? {node : Node} {definition : Definition}
    (h : ofNode? node = some definition) :
    ∃ start keyword value closed,
      node = .list start
        (.atom keyword SpecialForm.definition.keyword :: .atom definition.place definition.name ::
          value) closed ∧
      parametersOf? value = definition.parameters := by
  rw [ofNode?.eq_def] at h
  split at h
  · next start keyword head place name value closed =>
      split at h
      · next hhead =>
          cases h
          exact ⟨start, keyword, value, closed, hhead ▸ rfl, rfl⟩
      · cases h
  · cases h

/-- A procedure that is written out starts with the keyword and a list of parameters. -/
theorem exists_list_of_parametersOf? {nodes : List Node} {names : List String}
    (h : parametersOf? nodes = some names) :
    ∃ start keyword place parameters bracket body closed rest,
      nodes = .list start (.atom keyword SpecialForm.abstraction.keyword ::
        .list place parameters bracket :: body) closed :: rest ∧
      names = parameters.filterMap Node.token? := by
  rw [parametersOf?.eq_def] at h
  split at h
  · next start keyword head place parameters bracket body closed rest =>
      split at h
      · next hhead =>
          cases h
          exact ⟨start, keyword, place, parameters, bracket, body, closed, rest, hhead ▸ rfl, rfl⟩
      · cases h
  · cases h

end Definition

/-! ## Definitions that are evaluated -/

section Evaluated

variable {interpreter : Interpreter} {node : Node} {definition : Definition} {v : Value}

/-- The procedure that is written out is evaluated to a closure with these parameters. -/
theorem closure_of_parametersOf? {nodes : List Node} {names : List String}
    (hnodes : Definition.parametersOf? nodes = some names) {next : Identity} {expression : Value}
    (hloaded : (Datum.loadAll (nodes.map Node.datum) next).1 = [expression])
    {room : Nat} {place : FrameId} {s t : Store}
    (heval : evaluate room expression place s = .ok v t) :
    ∃ identity body, v = .closure identity (names.map .symbol) body place := by
  obtain ⟨start, keyword, inside, parameters, bracket, body, closed, rest, rfl, rfl⟩ :=
    Definition.exists_list_of_parametersOf? hnodes
  rw [List.map_cons, Datum.loadAll, Node.datum, Node.datumAll_eq_map] at hloaded
  obtain ⟨rfl, -⟩ := List.cons.inj hloaded
  obtain ⟨inner, symbols, code, fresh, hoperands, hsymbols, rfl⟩ :=
    closure_of_evaluate_ok (SpecialForm.ofHead?_keyword .abstraction) heval
  obtain ⟨hparameters, -⟩ := List.cons.inj hoperands
  rw [Node.datumAll_eq_map] at hparameters
  cases hparameters
  -- what is no token would have been loaded as a list, which is no parameter
  exact ⟨fresh, code, by rw [loadAll_of_isSymbol hsymbols]⟩

/-- A definition of the index that is evaluated has bound its name in the global frame, to
a closure with its parameters if it is that of a procedure. -/
theorem bound?_of_evaluateForm (hnode : Definition.ofNode? node = some definition)
    (hglobals : interpreter.globals < interpreter.store.frames.size)
    (heval : (interpreter.evaluateForm node.datum).1 = .ok v) :
    ∃ value, (interpreter.evaluateForm node.datum).2.store.bound? interpreter.globals
        definition.name = some value ∧
      ∀ names, definition.parameters = some names → ∃ identity body,
        value = .closure identity (names.map .symbol) body interpreter.globals := by
  obtain ⟨start, keyword, nodes, closed, rfl, hparameters⟩ :=
    Definition.exists_list_of_ofNode? hnode
  obtain ⟨t, hrun, hafter⟩ := Interpreter.exists_of_evaluateForm_ok heval
  obtain ⟨name, expression, value, less, u, hoperands, hvalue, rfl⟩ :=
    define_of_evaluate_ok (SpecialForm.ofHead?_keyword .definition) hrun
  obtain ⟨hname, hexpression⟩ := List.cons.inj hoperands
  have hsize : interpreter.globals < u.frames.size :=
    Nat.lt_of_lt_of_le hglobals (Store.extends_of_evaluate_ok hvalue).size_le
  rw [hafter, eq_of_load_ofToken hname, Store.bound?_define, if_pos ⟨rfl, rfl, hsize⟩]
  refine ⟨value, rfl, fun names hnames => ?_⟩
  rw [Node.datumAll_eq_map] at hexpression
  exact closure_of_parametersOf? (hparameters.trans hnames) hexpression hvalue

end Evaluated

/-! ## The index and the evaluation of a document -/

/-- Where the strict reading succeeds, the nodes of the document denote what it gives. -/
theorem map_datum_of_failure_eq_none {limit : Nat} {text : String}
    (h : (readSource limit (some text)).failure = none) :
    (NodeReading.ofDocument text.toList).nodes.map Node.datum =
      (readSource limit (some text)).forms := by
  obtain ⟨trees, remnant, nodes, hsplit, hdata, hreports⟩ := NodeReading.exists_outline text.toList
  by_cases hdepth : SyntaxTree.depthAll trees ≤ limit ∧ remnant.depth ≤ limit
  · have hagrees := NodeReading.agrees_of_outline hsplit hdata hreports hdepth
    exact hagrees.forms (hagrees.succeeds_iff.mpr h)
  · rw [readSource, hsplit, Remnant.failure_readForms, if_neg hdepth] at h
    cases h

/-- When a document has been evaluated without failure, every name of its index is bound in
the global frame.  The definition that the index has of the name stands in the last
top-level form that defines it; right after this form, and before the others are evaluated,
the name of a procedure is bound to a closure with the parameters that the index shows. -/
theorem index_agrees_with_eval {limit : Nat} {text : String} {index : Index}
    (hindex : Index.ofDocument limit text.toList = .ok index) {interpreter : Interpreter}
    (hglobals : interpreter.globals < interpreter.store.frames.size) {v : Value}
    (heval : (interpreter.eval (some text)).1 = .ok v) :
    index.nodes.map Node.datum = (readSource interpreter.limit (some text)).forms ∧
      ∀ definition ∈ index.definitions,
        ((interpreter.eval (some text)).2.store.bound? interpreter.globals
          definition.name).isSome ∧
        ∃ front node back, index.nodes = front ++ node :: back ∧
          Definition.ofNode? node = some definition ∧
          (∀ later ∈ back, ∀ other, Definition.ofNode? later = some other →
            other.name ≠ definition.name) ∧
          interpreter.Completes ((front ++ [node]).map Node.datum) ∧
          let after := interpreter.afterForms ((front ++ [node]).map Node.datum)
          (interpreter.eval (some text)).2 = after.afterForms (back.map Node.datum) ∧
            ∀ names, definition.parameters = some names → ∃ identity body,
              after.store.bound? interpreter.globals definition.name =
                some (.closure identity (names.map .symbol) body interpreter.globals) := by
  obtain ⟨hfailure, hcompletes, hafter⟩ := Interpreter.completes_of_eval_ok heval
  have hforms : index.nodes.map Node.datum = (readSource interpreter.limit (some text)).forms := by
    rw [(Index.ofDocument_ok hindex).1]
    exact map_datum_of_failure_eq_none hfailure
  refine ⟨hforms, fun definition hmem => ?_⟩
  obtain ⟨front, node, back, hnodes, hnode, hlast⟩ := Index.exists_node_of_mem hindex hmem
  have hsplit : (readSource interpreter.limit (some text)).forms =
      (front.map Node.datum ++ [node.datum]) ++ back.map Node.datum := by
    rw [← hforms, hnodes]
    simp
  rw [hsplit] at hcompletes hafter
  obtain ⟨hfirst, -, hboth⟩ := hcompletes.of_append
  obtain ⟨-, hsingle, hmoment⟩ := hfirst.of_append
  obtain ⟨⟨value, hvalue⟩, hstep⟩ := hsingle.of_singleton
  -- the moment right after the definition
  have hbefore := interpreter.globals_afterForms (front.map Node.datum)
  have hsize := Nat.lt_of_lt_of_le hglobals
    (interpreter.extends_afterForms (front.map Node.datum)).size_le
  obtain ⟨bound, hbound, hclosure⟩ :=
    bound?_of_evaluateForm hnode (hbefore.symm ▸ hsize) hvalue
  rw [hbefore, ← hstep, ← hmoment] at hbound
  rw [hbefore] at hclosure
  rw [hafter, hboth]
  refine ⟨?_, front, node, back, hnodes, hnode, hlast, ?_⟩
  · apply (Interpreter.extends_afterForms _ _).isSome_bound?
    rw [hbound]
    rfl
  · rw [List.map_append, List.map_singleton]
    refine ⟨hfirst, rfl, fun names hnames => ?_⟩
    obtain ⟨identity, body, rfl⟩ := hclosure names hnames
    exact ⟨identity, body, hbound⟩

/-- A name that is defined twice, the second time as a procedure, and assigned after
that. -/
theorem index_agrees_with_eval_redefined :
    let text := "(define f 1) (define f (lambda (x y) x)) (set! f (f 2 3))"
    let interpreter := Interpreter.create 100
    ∃ index v, Index.ofDocument 100 text.toList = .ok index ∧
      interpreter.globals < interpreter.store.frames.size ∧
      (interpreter.eval (some text)).1 = .ok v ∧
      index.definitions.map Definition.signature = ["(f x y)"] ∧
      ∀ definition ∈ index.definitions,
        ((interpreter.eval (some text)).2.store.bound? interpreter.globals
          definition.name).isSome ∧
        ∃ forms identity body,
          (interpreter.afterForms forms).store.bound? interpreter.globals definition.name =
            some (.closure identity [.symbol "x", .symbol "y"] body interpreter.globals) := by
  have hagrees (text : String) (interpreter : Interpreter) (signature : String)
      (names : List String) (hglobals : interpreter.globals < interpreter.store.frames.size)
      (hok : (interpreter.eval (some text)).1.isOk = true)
      (hdefinitions : (Index.ofDocument 100 text.toList).toOption.map
        (·.definitions.map fun definition => (definition.signature, definition.parameters)) =
          some [(signature, some names)]) :
      ∃ index v, Index.ofDocument 100 text.toList = .ok index ∧
        interpreter.globals < interpreter.store.frames.size ∧
        (interpreter.eval (some text)).1 = .ok v ∧
        index.definitions.map Definition.signature = [signature] ∧
        ∀ definition ∈ index.definitions,
          ((interpreter.eval (some text)).2.store.bound? interpreter.globals
            definition.name).isSome ∧
          ∃ forms identity body,
            (interpreter.afterForms forms).store.bound? interpreter.globals definition.name =
              some (.closure identity (names.map .symbol) body interpreter.globals) := by
    cases heval : (interpreter.eval (some text)).1 with
    | error failure => rw [heval] at hok; cases hok
    | ok v =>
        cases hindex : Index.ofDocument 100 text.toList with
        | error failure => rw [hindex] at hdefinitions; cases hdefinitions
        | ok index =>
            rw [hindex] at hdefinitions
            obtain ⟨definition, hsingle, hshown⟩ :=
              List.map_eq_singleton_iff.mp (Option.some.inj hdefinitions)
            obtain ⟨hsignature, hnames⟩ := Prod.mk.inj hshown
            have hmem : definition ∈ index.definitions := hsingle ▸ List.mem_singleton_self _
            obtain ⟨hbound, front, node, back, -, -, -, -, -, hclosure⟩ :=
              (index_agrees_with_eval hindex hglobals heval).2 definition hmem
            refine ⟨index, v, rfl, hglobals, rfl, ?_, fun other hother => ?_⟩
            · rw [hsingle, List.map_singleton, hsignature]
            · rw [hsingle, List.mem_singleton] at hother
              rw [hother]
              exact ⟨hbound, _, hclosure names hnames⟩
  exact hagrees "(define f 1) (define f (lambda (x y) x)) (set! f (f 2 3))" (Interpreter.create 100)
    "(f x y)" ["x", "y"] (Interpreter.arises_create 100).2 (by decide +kernel) (by decide +kernel)

end Document

end Lisplet
