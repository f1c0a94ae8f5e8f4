import ScriptVet.Proofs.Sql.Mutation
import ScriptVet.Proofs.Text.Trim

namespace ScriptVet

open Ast (Node)

/-- White space in front of a text makes no difference to how it is parsed. -/
def Grammar.SkipsLeadingSpace (g : Grammar) : Prop :=
  ∀ (u t : Text) (dialect : Option Dialect), u.Blank → g.parse (u ++ t) dialect = g.parse t dialect

theorem Fixture.skipsLeadingSpace (f : Fixture) : f.toGrammar.SkipsLeadingSpace := by
  intro u t dialect hu
  have hlookup : f.lookup (u ++ t) = f.lookup t := by
    rw [lookup, lookup, Text.trim_blank_append hu]
  simp only [toGrammar, hlookup]

theorem Text.upperByte_of_isSpace {c : UInt8} (hc : isSpace c = true) : upperByte c = c := by
  have hle : c.toNat ≤ 32 := toNat_le_of_isSpace hc
  have hlower : isLower c = false := by
    simp only [isLower, Bool.and_eq_false_iff, decide_eq_false_iff_not, UInt8.le_iff_toNat_le]
    exact .inl (Nat.not_le.mpr (Nat.lt_of_le_of_lt hle (by decide)))
  rw [upperByte, hlower, if_neg Bool.false_ne_true]

theorem Ast.Node.FirstChild.unique {n c d : Node} {kind : Ast.Kind} (hc : n.FirstChild kind c)
    (hd : n.FirstChild kind d) : c = d :=
  Option.some.inj ((child?_eq_some.mpr hc).symm.trans (child?_eq_some.mpr hd))

namespace Sql

/-- `EXPLAIN` and `ANALYZE` in any case, with the white space `gap` and the text `inner` behind. -/
structure Analyzes (root : Node) (gap inner : Text) : Prop where
  command : root.kind = .command
  explain : root.name.upper = .ascii "EXPLAIN"
  operand : ∃ operand word, root.FirstChild .literal operand ∧ operand.name = word ++ (gap ++ inner) ∧
    word.upper = .ascii "ANALYZE"
  blank : gap.Blank
  ne_nil : gap ≠ []

/-- The explained statement begins behind the first byte of the gap, if this byte is a space. -/
theorem Analyzes.explains_iff {root : Node} {gap inner target : Text} (h : Analyzes root gap inner) :
    Explains root target ↔ ∃ rest, gap = Text.byte ' ' :: rest ∧ target = rest ++ inner := by
  obtain ⟨hcommand, hexplain, ⟨operand, word, hchild, hname, hword⟩, hblank, hne⟩ := h
  have hlen : word.length = 7 := by
    rw [← Text.length_upper, hword]
    rfl
  constructor
  · intro he
    obtain ⟨operand', word', hchild', hname', hword'⟩ := he.operand
    obtain rfl := hchild.unique hchild'
    obtain ⟨c, rest, rfl⟩ := List.exists_cons_of_ne_nil hne
    -- the recognised word is one byte longer, so it takes the first byte of the gap
    have hlen' : word'.length = 8 := by
      rw [← Text.length_upper, hword']
      rfl
    have hsplit : word ++ [c] ++ (rest ++ inner) = word' ++ target := by
      rw [← hname', hname, List.append_assoc]
      rfl
    obtain ⟨hfront, hback⟩ := List.append_inj hsplit (by simp [hlen, hlen'])
    have hc : Text.upperByte c = c := Text.upperByte_of_isSpace (hblank c List.mem_cons_self)
    have hspace : Text.ascii "ANALYZE" ++ [c] = Text.ascii "ANALYZE" ++ [Text.byte ' '] :=
      calc Text.ascii "ANALYZE" ++ [c] = (word ++ [c]).upper := by
            rw [Text.upper_append, hword, Text.upper, List.map_singleton, hc]
        _ = analyze := by rw [hfront, hword']
    obtain rfl : c = Text.byte ' ' := List.singleton_inj.mp (List.append_cancel_left hspace)
    exact ⟨rest, rfl, hback.symm⟩
  · intro hspace
    obtain ⟨rest, rfl, rfl⟩ := hspace
    refine ⟨hcommand, hexplain, operand, word ++ [Text.byte ' '], hchild, ?_, ?_⟩
    · rw [hname, List.append_assoc]
      rfl
    · rw [Text.upper_append, hword]
      decide

/-- The answers to an explained text that make it a change: it is not exactly one statement, or the one
statement is a change, where `nesting` statements inside it may be read. -/
inductive Condemns (g : Grammar) (nesting : Nat) : Except Text Parse → Prop where
  | refused (reason : Text) : Condemns g nesting (.ok (.refused reason))
  | several {us : List (Option Node)} : (us.filterMap id).length ≠ 1 →
      Condemns g nesting (.ok (.units us))
  | changing {us : List (Option Node)} {unit : Node} : us.filterMap id = [unit] →
      (mutates g (some .postgres) nesting unit).outcome = .done true →
      Condemns g nesting (.ok (.units us))

theorem mutates_explaining_iff {g : Grammar} {root : Node} {target : Text} (nesting : Nat)
    (h : Harmless root) (he : Explains root target) :
    (mutates g (some .postgres) (nesting + 1) root).outcome = .done true ↔
      Condemns g nesting (g.parse target (some .postgres)) := by
  cases hp : g.parse target (some .postgres) with
  | error what =>
    rw [mutates_broken nesting h he hp]
    exact iff_of_false nofun nofun
  | ok p =>
    cases p with
    | refused reason =>
      rw [mutates_closed nesting h he hp rfl]
      exact iff_of_true rfl (.refused reason)
    | units us =>
      by_cases hone : ∃ unit, us.filterMap id = [unit]
      · obtain ⟨unit, hunit⟩ := hone
        rw [mutates_single nesting h he hp (Parse.single?_eq_some.mpr ⟨us, rfl, hunit⟩)]
        constructor
        · exact .changing hunit
        · intro hc
          cases hc with
          | several hseveral => exact absurd (congrArg List.length hunit) hseveral
          | changing hunit' hv =>
            obtain rfl := List.singleton_inj.mp (hunit.symm.trans hunit')
            exact hv
      · have hnone : (Parse.units us).single? = none := by
          refine Option.eq_none_iff_forall_ne_some.mpr fun unit hunit => hone ⟨unit, ?_⟩
          obtain ⟨_, ⟨⟩, hus⟩ := Parse.single?_eq_some.mp hunit
          exact hus
        rw [mutates_closed nesting h he hp hnone]
        refine iff_of_true rfl (.several fun hlen => hone ?_)
        exact List.length_eq_one_iff.mp hlen

/-- What becomes of an explained statement depends on the first byte behind the word `ANALYZE`. Behind a
space it is judged like any other statement, and one that cannot be read counts as a change. Behind any
other white space nothing is parsed, and only what stands in the tree of the command itself counts. -/
theorem analyzed_verdict (g : Grammar) (hg : g.SkipsLeadingSpace) (root : Node) (gap inner : Text)
    (h : Analyzes root gap inner) (nesting : Nat) :
    (gap.head? = some (Text.byte ' ') →
      ((mutates g (some .postgres) (nesting + 1) root).outcome = .done true ↔
        (∃ n, root.Contains n ∧ Changes n) ∨
          Condemns g nesting (g.parse inner (some .postgres)))) ∧
    (gap.head? ≠ some (Text.byte ' ') →
      ∃ verdict, mutates g (some .postgres) nesting root = pure verdict ∧
        (verdict = true ↔ ∃ n, root.Contains n ∧ Changes n)) := by
  by_cases hc : ∃ n, root.Contains n ∧ Changes n
  · rw [mutates_changing _ hc, mutates_changing _ hc]
    exact ⟨fun _ => iff_of_true rfl (.inl hc), fun _ => ⟨true, rfl, iff_of_true rfl hc⟩⟩
  · have hharmless : Harmless root := harmless_iff.mpr hc
    rw [or_iff_right hc]
    constructor
    · intro hspace
      obtain ⟨rest, rfl⟩ := List.head?_eq_some_iff.mp hspace
      have he : Explains root (rest ++ inner) := h.explains_iff.mpr ⟨rest, rfl, rfl⟩
      have hrest : Text.Blank rest := fun c hmem => h.blank c (List.mem_cons_of_mem _ hmem)
      rw [mutates_explaining_iff nesting hharmless he, hg rest inner _ hrest]
    · intro hspace
      have hplain : ∀ target, ¬Explains root target := by
        intro target he
        obtain ⟨rest, rfl, -⟩ := h.explains_iff.mp he
        exact hspace rfl
      exact ⟨false, mutates_plain nesting hharmless hplain, iff_of_false Bool.false_ne_true hc⟩

theorem analyzes_explaining {word gap inner : Text} (hword : word.upper = .ascii "ANALYZE")
    (hgap : gap.all Text.isSpace = true) (hne : gap ≠ []) :
    Analyzes (explaining (word ++ (gap ++ inner))) gap inner where
  command := rfl
  explain := rfl
  operand := ⟨⟨.literal, _, [], [], [], []⟩, word, Node.child?_eq_some.mp rfl, rfl, hword⟩
  blank := List.all_eq_true.mp hgap
  ne_nil := hne

theorem condemns_delete : Condemns deletingGrammar 0
    (deletingGrammar.parse (.ascii "DELETE FROM t") (some .postgres)) :=
  .changing rfl (by rw [mutates_changing 0 changes_bareDelete]; rfl)

/-- More white space behind the space makes no difference. -/
theorem analyzed_verdict_space_tab :
    Analyzes (explaining (.ascii "Analyze \tDELETE FROM t")) (.ascii " \t") (.ascii "DELETE FROM t") ∧
      (mutates deletingGrammar (some .postgres) 1
        (explaining (.ascii "Analyze \tDELETE FROM t"))).outcome = .done true := by
  have h : Analyzes (explaining (.ascii "Analyze \tDELETE FROM t")) (.ascii " \t")
      (.ascii "DELETE FROM t") :=
    @analyzes_explaining (.ascii "Analyze") (.ascii " \t") (.ascii "DELETE FROM t") rfl rfl nofun
  have hv := analyzed_verdict deletingGrammar (Fixture.skipsLeadingSpace _) _ _ _ h 0
  exact ⟨h, (hv.1 rfl).mpr (.inr condemns_delete)⟩

/-- Behind a line break a deletion passes for harmless, although it is run. -/
theorem explained_behind_newline_unseen :
    deletingGrammar.SkipsLeadingSpace ∧
      Analyzes (explaining (.ascii "ANALYZE\nDELETE FROM t")) (.ascii "\n") (.ascii "DELETE FROM t") ∧
      Condemns deletingGrammar 0 (deletingGrammar.parse (.ascii "DELETE FROM t") (some .postgres)) ∧
      ∀ nesting, mutates deletingGrammar (some .postgres) nesting
        (explaining (.ascii "ANALYZE\nDELETE FROM t")) = pure false := by
  have h : Analyzes (explaining (.ascii "ANALYZE\nDELETE FROM t")) (.ascii "\n")
      (.ascii "DELETE FROM t") :=
    @analyzes_explaining (.ascii "ANALYZE") (.ascii "\n") (.ascii "DELETE FROM t") rfl rfl nofun
  refine ⟨Fixture.skipsLeadingSpace _, h, condemns_delete, fun nesting => ?_⟩
  refine mutates_plain nesting (harmless_explaining _) fun target he => ?_
  obtain ⟨rest, hrest, -⟩ := h.explains_iff.mp he
  have hhead := (List.cons.inj hrest).1
  exact absurd hhead (by decide)

end Sql

end ScriptVet
