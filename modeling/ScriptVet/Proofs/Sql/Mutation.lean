import Mathlib.Data.List.Chain
import ScriptVet.Grammar.Fixture
import ScriptVet.Proofs.Ast.Search
import ScriptVet.Proofs.Run
import ScriptVet.Sql.Mutation

namespace ScriptVet.Sql

open Ast (Node)

/-- The node changes data or schema. -/
inductive Changes (n : Node) : Prop where
  | writing : n.kind ∈ [.insert, .update, .delete, .merge, .create, .drop, .truncateTable] → Changes n
  | altering : n.kind = .command → n.name.upper = .ascii "ALTER" → Changes n

theorem writes_iff {n : Node} : writes n = true ↔ Changes n := by
  constructor
  · intro h
    cases hk : n.kind <;> simp only [writes, hk] at h
    case command => exact .altering hk (of_decide_eq_true h)
    all_goals first
      | exact absurd h Bool.false_ne_true
      | exact .writing (by simp [hk])
  · intro h
    cases h with
    | writing hk =>
      simp only [List.mem_cons, List.not_mem_nil, or_false] at hk
      rcases hk with hk | hk | hk | hk | hk | hk | hk <;> simp [writes, hk]
    | altering hk hname => simp [writes, hk, hname]

/-- Nothing in the tree changes anything. -/
def Harmless (root : Node) : Prop := ∀ n, root.Contains n → ¬Changes n

theorem any_writes_iff {root : Node} :
    root.any writes = true ↔ ∃ n, root.Contains n ∧ Changes n := by
  rw [Node.any_eq_true]
  simp only [writes_iff]

theorem harmless_iff {root : Node} : Harmless root ↔ ¬∃ n, root.Contains n ∧ Changes n := by
  simp only [Harmless, not_exists, not_and]

theorem any_writes_eq_false {root : Node} : root.any writes = false ↔ Harmless root := by
  rw [← Bool.not_eq_true, any_writes_iff, harmless_iff]

/-- `EXPLAIN ANALYZE` with `target` behind it, where upper and lower case are the same. -/
structure Explains (n : Node) (target : Text) : Prop where
  command : n.kind = .command
  explain : n.name.upper = .ascii "EXPLAIN"
  operand : ∃ operand word, n.FirstChild .literal operand ∧ operand.name = word ++ target ∧
    word.upper = analyze

theorem analyze_isPrefixOf_iff {t rest : Text} :
    analyze.isPrefixOf t.upper ∧ t.drop analyze.length = rest ↔
      ∃ word, t = word ++ rest ∧ word.upper = analyze := by
  constructor
  · intro h
    obtain ⟨hpre, rfl⟩ := h
    have htake := List.prefix_iff_eq_take.mp (List.isPrefixOf_iff_prefix.mp hpre)
    have hword : Text.upper (t.take analyze.length) = analyze := by
      rw [Text.upper, List.map_take]
      exact htake.symm
    exact ⟨t.take analyze.length, (List.take_append_drop _ t).symm, hword⟩
  · intro h
    obtain ⟨word, rfl, hword⟩ := h
    have hlen : word.length = analyze.length := by
      rw [← hword, Text.upper, List.length_map]
    constructor
    · rw [Text.upper, List.map_append, ← Text.upper, hword]
      exact List.isPrefixOf_iff_prefix.mpr (List.prefix_append _ _)
    · rw [← hlen, List.drop_left]

theorem explained?_eq_some {n : Node} {target : Text} :
    explained? n = some target ↔ Explains n target := by
  constructor
  · intro h
    rw [explained?] at h
    split at h
    · rename_i hc
      cases hfirst : n.child? .literal with
      | none => simp [hfirst] at h
      | some operand =>
        simp only [hfirst, Option.ite_none_right_eq_some, Option.some.injEq] at h
        obtain ⟨word, hname, hword⟩ := analyze_isPrefixOf_iff.mp h
        have hchild : n.FirstChild .literal operand := Node.child?_eq_some.mp hfirst
        exact ⟨hc.1, hc.2, operand, word, hchild, hname, hword⟩
    · cases h
  · intro h
    obtain ⟨hc, he, operand, word, hchild, hname, hword⟩ := h
    have hread := analyze_isPrefixOf_iff.mpr ⟨word, hname, hword⟩
    rw [explained?, if_pos ⟨hc, he⟩, Node.child?_eq_some.mpr hchild]
    simp only [hread.1, if_true, hread.2]

theorem explained?_eq_none {n : Node} :
    explained? n = none ↔ ∀ target, ¬Explains n target := by
  simp only [Option.eq_none_iff_forall_ne_some, ne_eq, explained?_eq_some]

section Verdict

variable {g : Grammar} {dialect : Option Dialect} {root unit : Node} {target : Text} {p : Parse}

theorem mutates_changing (nesting : Nat) (h : ∃ n, root.Contains n ∧ Changes n) :
    mutates g dialect nesting root = pure true := by
  rw [mutates, if_pos (any_writes_iff.mpr h)]

theorem mutates_other (nesting : Nat) (h : Harmless root) (hd : dialect ≠ some .postgres) :
    mutates g dialect nesting root = pure false := by
  rw [mutates, any_writes_eq_false.mpr h, if_neg Bool.false_ne_true, if_pos hd]

theorem mutates_plain (nesting : Nat) (h : Harmless root) (hplain : ∀ target, ¬Explains root target) :
    mutates g dialect nesting root = pure false := by
  rw [mutates, any_writes_eq_false.mpr h, if_neg Bool.false_ne_true, explained?_eq_none.mpr hplain,
    ite_self]

theorem mutates_zero (h : Harmless root) (he : Explains root target) :
    mutates g (some .postgres) 0 root = .unfinished := by
  rw [mutates, any_writes_eq_false.mpr h, if_neg Bool.false_ne_true, if_neg (not_not_intro rfl),
    explained?_eq_some.mpr he]

/-- The warning about a text that is not exactly one statement. -/
def complaint : Parse → Text
  | .refused reason => unreadTarget reason
  | .units us => splitTarget (us.filterMap id).length

/-- How the verdict goes on when the explained text has been parsed. -/
def verdictOn (g : Grammar) (nesting : Nat) (p : Parse) : Run Bool :=
  match p.single? with
  | some unit => mutates g (some .postgres) nesting unit
  | none => ⟨[.note .warn (complaint p)], .done true⟩

theorem mutates_succ (nesting : Nat) (h : Harmless root) (he : Explains root target) :
    mutates g (some .postgres) (nesting + 1) root =
      g.parsed target (some .postgres) >>= verdictOn g nesting := by
  rw [mutates, any_writes_eq_false.mpr h, if_neg Bool.false_ne_true, if_neg (not_not_intro rfl),
    explained?_eq_some.mpr he]
  refine congrArg (g.parsed target (some .postgres) >>= ·) (funext fun p => ?_)
  cases p with
  | refused reason => rfl
  | units us =>
    rcases hus : us.filterMap id with _ | ⟨unit, _ | ⟨other, others⟩⟩ <;>
      simp only [verdictOn, complaint, Parse.single?, hus] <;> rfl

theorem mutates_broken (nesting : Nat) {what : Text} (h : Harmless root)
    (he : Explains root target) (hp : g.parse target (some .postgres) = .error what) :
    mutates g (some .postgres) (nesting + 1) root =
      ⟨[.call (.parse target (some .postgres))], .broken what⟩ := by
  rw [mutates_succ nesting h he, Grammar.parsed, hp, Run.ask_error]
  exact Run.bind_broken rfl _

theorem mutates_single (nesting : Nat) (h : Harmless root) (he : Explains root target)
    (hp : g.parse target (some .postgres) = .ok p) (hone : p.single? = some unit) :
    mutates g (some .postgres) (nesting + 1) root =
      ⟨.call (.parse target (some .postgres)) :: (mutates g (some .postgres) nesting unit).events,
        (mutates g (some .postgres) nesting unit).outcome⟩ := by
  rw [mutates_succ nesting h he, Grammar.parsed, hp, Run.ask_ok, Run.bind_done rfl,
    verdictOn, hone]
  rfl

/-- A text that is not exactly one statement counts as a change. -/
theorem mutates_closed (nesting : Nat) (h : Harmless root) (he : Explains root target)
    (hp : g.parse target (some .postgres) = .ok p) (hone : p.single? = none) :
    mutates g (some .postgres) (nesting + 1) root =
      ⟨[.call (.parse target (some .postgres)), .note .warn (complaint p)], .done true⟩ := by
  rw [mutates_succ nesting h he, Grammar.parsed, hp, Run.ask_ok, Run.bind_done rfl,
    verdictOn, hone]
  rfl

/-- The three ways in which the verdict on a statement can begin in Postgres. -/
theorem changing_or_plain_or_explains (root : Node) :
    (∃ n, root.Contains n ∧ Changes n) ∨ (Harmless root ∧ ∀ target, ¬Explains root target) ∨
      (Harmless root ∧ ∃ target, Explains root target) := by
  cases hany : root.any writes with
  | true => exact .inl (any_writes_iff.mp hany)
  | false =>
    have h : Harmless root := any_writes_eq_false.mp hany
    cases he : explained? root with
    | none => exact .inr (.inl ⟨h, explained?_eq_none.mp he⟩)
    | some target => exact .inr (.inr ⟨h, target, explained?_eq_some.mp he⟩)

/-- A run that has ended within some nesting is the same within any larger one. -/
theorem mutates_add {root : Node} (nesting more : Nat)
    (hend : (mutates g (some .postgres) nesting root).outcome ≠ .unfinished) :
    mutates g (some .postgres) (nesting + more) root = mutates g (some .postgres) nesting root := by
  rcases changing_or_plain_or_explains root with hc | ⟨h, hplain⟩ | ⟨h, target, he⟩
  · rw [mutates_changing _ hc, mutates_changing _ hc]
  · rw [mutates_plain _ h hplain, mutates_plain _ h hplain]
  · cases nesting with
    | zero =>
      rw [mutates_zero h he] at hend
      exact absurd rfl hend
    | succ nesting =>
      rw [Nat.add_right_comm]
      cases hp : g.parse target (some .postgres) with
      | error what => rw [mutates_broken _ h he hp, mutates_broken _ h he hp]
      | ok p =>
        cases hone : p.single? with
        | none => rw [mutates_closed _ h he hp hone, mutates_closed _ h he hp hone]
        | some unit =>
          rw [mutates_single _ h he hp hone] at hend
          have ih := mutates_add nesting more hend
          rw [mutates_single _ h he hp hone, mutates_single _ h he hp hone, ih]

/-- The text that `n` explains is read as the one statement `inner`. -/
def Leads (g : Grammar) (n inner : Node) : Prop :=
  ∃ target us, Explains n target ∧ g.parse target (some .postgres) = .ok (.units us) ∧
    us.filterMap id = [inner]

theorem mutates_leads {inner : Node} (nesting : Nat) (h : Harmless root) (hl : Leads g root inner) :
    (mutates g (some .postgres) (nesting + 1) root).outcome =
      (mutates g (some .postgres) nesting inner).outcome := by
  obtain ⟨target, us, he, hp, hone⟩ := hl
  have hsingle : (Parse.units us).single? = some inner :=
    Parse.single?_eq_some.mpr ⟨us, rfl, hone⟩
  rw [mutates_single nesting h he hp hsingle]

/-- Statements from `root` to `last`, each of which leads to the next one, and none of which changes
anything. -/
structure HarmlessChain (g : Grammar) (root last : Node) (chain : List Node) : Prop where
  head : chain.head? = some root
  last : chain.getLast? = some last
  links : chain.IsChain (Leads g)
  harmless : ∀ n ∈ chain, Harmless n

theorem HarmlessChain.single (h : Harmless root) : HarmlessChain g root root [root] where
  head := rfl
  last := rfl
  links := .singleton root
  harmless _ hn := List.mem_singleton.mp hn ▸ h

theorem HarmlessChain.cons {inner last : Node} {chain : List Node} (h : Harmless root)
    (hl : Leads g root inner) (hrest : HarmlessChain g inner last chain) :
    HarmlessChain g root last (root :: chain) := by
  obtain ⟨hhead, hlast, hlinks, hall⟩ := hrest
  cases chain with
  | nil => cases hhead
  | cons first others =>
    cases hhead
    exact ⟨rfl, hlast, .cons_cons hl hlinks, List.forall_mem_cons.mpr ⟨h, hall⟩⟩

theorem HarmlessChain.harmless_last {last : Node} {chain : List Node}
    (h : HarmlessChain g root last chain) : Harmless last :=
  h.harmless last (List.mem_of_getLast? h.last)

theorem HarmlessChain.exists_length {last : Node} {chain : List Node}
    (h : HarmlessChain g root last chain) : ∃ depth, chain.length = depth + 1 :=
  Nat.exists_eq_succ_of_ne_zero (List.length_pos_of_mem (List.mem_of_getLast? h.last)).ne'

/-- A chain hands what becomes of its last statement up to its first one. -/
theorem HarmlessChain.outcome_of_length {last : Node} {chain : List Node} {depth : Nat}
    (nesting : Nat) (h : HarmlessChain g root last chain) (hdepth : chain.length = depth + 1) :
    (mutates g (some .postgres) (nesting + depth) root).outcome =
      (mutates g (some .postgres) nesting last).outcome := by
  induction chain generalizing root depth with
  | nil => cases h.head
  | cons first others ih =>
    obtain ⟨hhead, hlast, hlinks, hall⟩ := h
    cases hhead
    obtain rfl : others.length = depth := Nat.succ.inj hdepth
    cases others with
    | nil =>
      cases hlast
      rfl
    | cons second others =>
      have hl : Leads g first second := (List.isChain_cons_cons.mp hlinks).1
      have hrest : HarmlessChain g second last (second :: others) :=
        ⟨rfl, hlast, hlinks.of_cons, fun n hn => hall n (List.mem_cons_of_mem _ hn)⟩
      rw [← ih hrest rfl]
      exact mutates_leads _ (hall _ List.mem_cons_self) hl

theorem HarmlessChain.outcome {last : Node} {chain : List Node} (nesting : Nat)
    (h : HarmlessChain g root last chain) :
    (mutates g (some .postgres) (nesting + chain.length) root).outcome =
      (mutates g (some .postgres) (nesting + 1) last).outcome := by
  obtain ⟨depth, hdepth⟩ := h.exists_length
  rw [hdepth, Nat.add_comm depth 1, ← Nat.add_assoc]
  exact h.outcome_of_length (nesting + 1) hdepth

/-- What a chain comes to behind its last statement, where `nesting` further statements may be read. -/
inductive ChainEnd (g : Grammar) (last : Node) : Nat → Outcome Bool → Prop where
  | plain (nesting : Nat) : (∀ target, ¬Explains last target) → ChainEnd g last nesting (.done false)
  | cut {target : Text} : Explains last target → ChainEnd g last 0 .unfinished
  | broken {target what : Text} (nesting : Nat) : Explains last target →
      g.parse target (some .postgres) = .error what → ChainEnd g last (nesting + 1) (.broken what)
  | closed {target : Text} {p : Parse} (nesting : Nat) : Explains last target →
      g.parse target (some .postgres) = .ok p → p.single? = none →
      ChainEnd g last (nesting + 1) (.done true)
  | changing {inner : Node} (nesting : Nat) : Leads g last inner →
      (∃ n, inner.Contains n ∧ Changes n) → ChainEnd g last (nesting + 1) (.done true)

theorem ChainEnd.outcome {last : Node} {nesting : Nat} {o : Outcome Bool}
    (hend : ChainEnd g last nesting o) (h : Harmless last) :
    (mutates g (some .postgres) nesting last).outcome = o := by
  cases hend with
  | plain _ hplain => rw [mutates_plain nesting h hplain, Run.pure_eq]
  | cut he => rw [mutates_zero h he, Run.unfinished]
  | broken nesting he hp => rw [mutates_broken nesting h he hp]
  | closed nesting he hp hone => rw [mutates_closed nesting h he hp hone]
  | changing nesting hl hc => rw [mutates_leads nesting h hl, mutates_changing nesting hc, Run.pure_eq]

/-- Behind `root` there is a chain that comes to `o`, where `nesting` statements may be read in all. -/
def ChainTo (g : Grammar) (root : Node) (nesting : Nat) (o : Outcome Bool) : Prop :=
  ∃ chain last depth rest, HarmlessChain g root last chain ∧ chain.length = depth + 1 ∧
    rest + depth = nesting ∧ ChainEnd g last rest o

theorem ChainTo.outcome {nesting : Nat} {o : Outcome Bool} (h : ChainTo g root nesting o) :
    (mutates g (some .postgres) nesting root).outcome = o := by
  obtain ⟨chain, last, depth, rest, hchain, hlen, rfl, hend⟩ := h
  rw [hchain.outcome_of_length rest hlen, hend.outcome hchain.harmless_last]

theorem HarmlessChain.chainTo {last : Node} {chain : List Node} {more : Nat} {o : Outcome Bool}
    (h : HarmlessChain g root last chain) (hend : ChainEnd g last (more + 1) o) :
    ChainTo g root (more + chain.length) o := by
  obtain ⟨depth, hdepth⟩ := h.exists_length
  exact ⟨chain, last, depth, more + 1, h, hdepth, by omega, hend⟩

/-- Every harmless statement is the first one of a chain that comes to an end. -/
theorem exists_chainTo {root : Node} (nesting : Nat) (h : Harmless root) :
    ∃ o, ChainTo g root nesting o := by
  have hstop {o : Outcome Bool} (hend : ChainEnd g root nesting o) : ∃ o, ChainTo g root nesting o :=
    ⟨o, [root], root, 0, nesting, .single h, rfl, rfl, hend⟩
  rcases changing_or_plain_or_explains root with hc | ⟨-, hplain⟩ | ⟨-, target, he⟩
  · exact absurd hc (harmless_iff.mp h)
  · exact hstop (.plain nesting hplain)
  · cases nesting with
    | zero => exact hstop (.cut he)
    | succ nesting =>
      cases hp : g.parse target (some .postgres) with
      | error what => exact hstop (.broken nesting he hp)
      | ok p =>
        cases hone : p.single? with
        | none => exact hstop (.closed nesting he hp hone)
        | some inner =>
          obtain ⟨us, rfl, hus⟩ := Parse.single?_eq_some.mp hone
          have hl : Leads g root inner := ⟨target, us, he, hp, hus⟩
          by_cases hc : ∃ n, inner.Contains n ∧ Changes n
          · exact hstop (.changing nesting hl hc)
          · obtain ⟨o, chain, last, depth, rest, hchain, hlen, hsum, hend⟩ :=
              exists_chainTo nesting (harmless_iff.mpr hc)
            refine ⟨o, root :: chain, last, depth + 1, rest, .cons h hl hchain, ?_, ?_, hend⟩
            · rw [List.length_cons, hlen]
            · rw [← Nat.add_assoc, hsum]

/-- Any outcome but the verdict that there is a change comes with its chain. -/
theorem outcome_eq_iff {nesting : Nat} {o : Outcome Bool} (hne : o ≠ .done true) :
    (mutates g (some .postgres) nesting root).outcome = o ↔ ChainTo g root nesting o := by
  constructor
  · intro ho
    have h : Harmless root := by
      apply harmless_iff.mpr
      intro hc
      rw [mutates_changing nesting hc] at ho
      exact hne ho.symm
    obtain ⟨o', hto⟩ := exists_chainTo (g := g) nesting h
    rwa [← ho, hto.outcome]
  · exact ChainTo.outcome

/-- A harmless verdict comes with its chain. -/
theorem exists_chain_of_done_false (nesting : Nat)
    (hv : (mutates g (some .postgres) nesting root).outcome = .done false) :
    ∃ chain last, HarmlessChain g root last chain ∧ ∀ target, ¬Explains last target := by
  obtain ⟨chain, last, depth, rest, hchain, -, -, hend⟩ := (outcome_eq_iff (by decide)).mp hv
  cases hend with
  | plain _ hplain => exact ⟨chain, last, hchain, hplain⟩

/-- The verdict stays open exactly where more harmless statements explain one another than may be
read. -/
theorem unfinished_iff (nesting : Nat) :
    (mutates g (some .postgres) nesting root).outcome = .unfinished ↔
      ∃ chain last target, HarmlessChain g root last chain ∧ chain.length = nesting + 1 ∧
        Explains last target := by
  rw [outcome_eq_iff (by decide)]
  constructor
  · intro h
    obtain ⟨chain, last, depth, rest, hchain, hlen, rfl, hend⟩ := h
    cases hend with
    | cut he => exact ⟨chain, last, _, hchain, by rw [hlen, Nat.zero_add], he⟩
  · intro h
    obtain ⟨chain, last, target, hchain, hlen, he⟩ := h
    exact ⟨chain, last, nesting, 0, hchain, hlen, Nat.zero_add _, .cut he⟩

/-- The grammar breaks down exactly where it does so on a text at the end of a chain. -/
theorem broken_iff (nesting : Nat) (what : Text) :
    (mutates g (some .postgres) nesting root).outcome = .broken what ↔
      ∃ chain last target, HarmlessChain g root last chain ∧ chain.length ≤ nesting ∧
        Explains last target ∧ g.parse target (some .postgres) = .error what := by
  have hne : Outcome.broken what ≠ .done true := nofun
  rw [outcome_eq_iff hne]
  constructor
  · intro h
    obtain ⟨chain, last, depth, rest, hchain, hlen, rfl, hend⟩ := h
    cases hend with
    | broken rest he hp => exact ⟨chain, last, _, hchain, by omega, he, hp⟩
  · intro h
    obtain ⟨chain, last, target, hchain, hlen, he, hp⟩ := h
    obtain ⟨more, rfl⟩ := Nat.exists_eq_add_of_le' hlen
    exact hchain.chainTo (.broken more he hp)

/-- A chain within the nesting that goes on to no harmless statement brings its first statement to an
end. -/
theorem HarmlessChain.ends {last : Node} {chain : List Node} {nesting : Nat}
    (h : HarmlessChain g root last chain) (hlen : chain.length ≤ nesting)
    (hstop : ∀ inner, Leads g last inner → ¬Harmless inner) :
    (mutates g (some .postgres) nesting root).outcome ≠ .unfinished := by
  obtain ⟨more, rfl⟩ := Nat.exists_eq_add_of_le' hlen
  rw [h.outcome]
  intro hopen
  obtain ⟨others, last', target, hothers, hlen', -⟩ := (unfinished_iff _).mp hopen
  obtain ⟨hhead, -, hlinks, hall⟩ := hothers
  rcases others with _ | ⟨first, _ | ⟨second, others⟩⟩
  · cases hhead
  · cases hlen'
  · cases hhead
    have hl : Leads g last second := (List.isChain_cons_cons.mp hlinks).1
    exact hstop second hl (hall second (List.mem_cons_of_mem _ List.mem_cons_self))

/-- A verdict that has been reached is harmless exactly when there is a chain to a plain statement. -/
theorem verdict_eq_false_iff {verdict : Bool} (nesting : Nat)
    (hv : (mutates g (some .postgres) nesting root).outcome = .done verdict) :
    verdict = false ↔
      ∃ chain last, HarmlessChain g root last chain ∧ ∀ target, ¬Explains last target := by
  constructor
  · intro hfalse
    subst hfalse
    exact exists_chain_of_done_false nesting hv
  · intro h
    obtain ⟨chain, last, hchain, hplain⟩ := h
    have hend : (mutates g (some .postgres) nesting root).outcome ≠ .unfinished := by
      simp [hv]
    -- the chain speaks of a nesting of its own, so both runs are compared within the sum
    have hsum := (hchain.chainTo (.plain (nesting + 1) hplain)).outcome
    rw [mutates_add nesting chain.length hend, hv] at hsum
    exact Outcome.done.inj hsum

end Verdict

/-- The verdict of the write gate. Outside of Postgres it does not depend on the grammar. In Postgres
everything but a chain of harmless statements down to a plain one counts as a change, however deep
the text stands that cannot be read as one statement, and the verdict is reached unless more statements
explain one another than may be read, or the grammar breaks down on one of them. -/
theorem mutates_verdict (g : Grammar) (root : Node) :
    (∀ dialect nesting, dialect ≠ some .postgres →
      ∃ verdict, mutates g dialect nesting root = pure verdict ∧
        (verdict = true ↔ ∃ n, root.Contains n ∧ Changes n)) ∧
    (∀ nesting verdict, (mutates g (some .postgres) nesting root).outcome = .done verdict →
      (verdict = false ↔
        ∃ chain last, HarmlessChain g root last chain ∧ ∀ target, ¬Explains last target)) ∧
    ((∃ n, root.Contains n ∧ Changes n) →
      ∀ nesting, mutates g (some .postgres) nesting root = pure true) ∧
    (∀ chain last, HarmlessChain g root last chain → (∀ target, ¬Explains last target) →
      ∀ more, (mutates g (some .postgres) (more + chain.length) root).outcome = .done false) ∧
    (∀ chain last target p, HarmlessChain g root last chain → Explains last target →
      g.parse target (some .postgres) = .ok p →
      (∀ us, p = .units us → (us.filterMap id).length ≠ 1) →
      ∀ more, (mutates g (some .postgres) (more + chain.length) root).outcome = .done true) ∧
    (∀ chain last inner, HarmlessChain g root last chain → Leads g last inner →
      (∃ n, inner.Contains n ∧ Changes n) →
      ∀ more, (mutates g (some .postgres) (more + chain.length) root).outcome = .done true) ∧
    (∀ nesting, (mutates g (some .postgres) nesting root).outcome = .unfinished ↔
      ∃ chain last target, HarmlessChain g root last chain ∧ chain.length = nesting + 1 ∧
        Explains last target) ∧
    (∀ nesting what, (mutates g (some .postgres) nesting root).outcome = .broken what ↔
      ∃ chain last target, HarmlessChain g root last chain ∧ chain.length ≤ nesting ∧
        Explains last target ∧ g.parse target (some .postgres) = .error what) := by
  refine ⟨?_, ?_, ?_, ?_, ?_, ?_, unfinished_iff, broken_iff⟩
  · intro dialect nesting hd
    rcases changing_or_plain_or_explains root with hc | ⟨h, -⟩ | ⟨h, -⟩
    · exact ⟨true, mutates_changing nesting hc, iff_of_true rfl hc⟩
    all_goals
      have hno : ¬∃ n, root.Contains n ∧ Changes n := harmless_iff.mp h
      exact ⟨false, mutates_other nesting h hd, iff_of_false Bool.false_ne_true hno⟩
  · intro nesting verdict hv
    exact verdict_eq_false_iff nesting hv
  · intro hc nesting
    exact mutates_changing nesting hc
  · intro chain last h hplain more
    exact (h.chainTo (.plain (more + 1) hplain)).outcome
  · intro chain last target p h he hp hseveral more
    have hone : p.single? = none := by
      apply Option.eq_none_iff_forall_ne_some.mpr
      intro unit hsingle
      obtain ⟨us, hus, hunit⟩ := Parse.single?_eq_some.mp hsingle
      have hlen : (us.filterMap id).length = 1 := by
        rw [hunit]
        rfl
      exact hseveral us hus hlen
    exact (h.chainTo (.closed more he hp hone)).outcome
  · intro chain last inner h hl hc more
    exact (h.chainTo (.changing more hl hc)).outcome

/-- An `EXPLAIN` command with its operand. -/
def explaining (operand : Text) : Node :=
  ⟨.command, .ascii "Explain", [], [], [], [⟨.literal, operand, [], [], [], []⟩]⟩

def bareSelect : Node := ⟨.select, [], [], [], [], []⟩

/-- Knows a query, and an explanation of it behind an empty statement. -/
def explainingGrammar : Grammar :=
  { parses :=
      [(.ascii "SELECT 1", .units [some bareSelect]),
        (.ascii "EXPLAIN ANALYZE SELECT 1",
          .units [none, some (explaining (.ascii "analyze SELECT 1"))])]
    parseFault := none
    generateFault := none
    scopesFault := none
    fixedScopes := none : Fixture }.toGrammar

def bareDelete : Node := ⟨.delete, [], [], [], [], []⟩

/-- Knows one statement, which changes something. -/
def deletingGrammar : Grammar :=
  { parses := [(.ascii "DELETE FROM t", .units [some bareDelete])]
    parseFault := none
    generateFault := none
    scopesFault := none
    fixedScopes := none : Fixture }.toGrammar

/-- Breaks down on every text. -/
def parselessGrammar : Grammar :=
  { parses := []
    parseFault := some (.ascii "no parser")
    generateFault := none
    scopesFault := none
    fixedScopes := none : Fixture }.toGrammar

theorem harmless_explaining (operand : Text) : Harmless (explaining operand) := by
  rw [← any_writes_eq_false, Node.any_eq]
  rfl

theorem harmless_bareSelect : Harmless bareSelect := by
  rw [← any_writes_eq_false, Node.any_eq]
  rfl

theorem changes_bareDelete : ∃ n, bareDelete.Contains n ∧ Changes n :=
  ⟨bareDelete, .root, .writing (by decide)⟩

/-- A query and a deletion, a text that nobody knows, a breakdown, and a nesting that is too small. -/
theorem mutates_verdict_twice_explained :
    HarmlessChain explainingGrammar (explaining (.ascii "Analyze EXPLAIN ANALYZE SELECT 1")) bareSelect
        [explaining (.ascii "Analyze EXPLAIN ANALYZE SELECT 1"),
          explaining (.ascii "analyze SELECT 1"), bareSelect] ∧
      (mutates explainingGrammar (some .postgres) 3
        (explaining (.ascii "Analyze EXPLAIN ANALYZE SELECT 1"))).outcome = .done false ∧
      (mutates explainingGrammar (some .postgres) 1
        (explaining (.ascii "Analyze EXPLAIN ANALYZE SELECT 1"))).outcome = .unfinished ∧
      (mutates explainingGrammar (some .postgres) 1
        (explaining (.ascii "ANALYZE SELECT 2"))).outcome = .done true ∧
      mutates deletingGrammar (some .postgres) 0 bareDelete = pure true ∧
      (mutates deletingGrammar (some .postgres) 1
        (explaining (.ascii "ANALYZE DELETE FROM t"))).outcome = .done true ∧
      (mutates parselessGrammar (some .postgres) 1
        (explaining (.ascii "ANALYZE SELECT 2"))).outcome = .broken (.ascii "no parser") ∧
      mutates explainingGrammar (some .mysql) 0 (explaining (.ascii "ANALYZE SELECT 2")) =
        pure false := by
  have hplain : ∀ target, ¬Explains bareSelect target := explained?_eq_none.mp rfl
  have hlast : Explains (explaining (.ascii "analyze SELECT 1")) (.ascii "SELECT 1") :=
    explained?_eq_some.mp (by decide)
  have hfirst : Leads explainingGrammar (explaining (.ascii "Analyze EXPLAIN ANALYZE SELECT 1"))
      (explaining (.ascii "analyze SELECT 1")) :=
    ⟨.ascii "EXPLAIN ANALYZE SELECT 1", _, explained?_eq_some.mp (by decide), rfl, rfl⟩
  have hsecond : Leads explainingGrammar (explaining (.ascii "analyze SELECT 1")) bareSelect :=
    ⟨.ascii "SELECT 1", _, hlast, rfl, rfl⟩
  have hchain := ((HarmlessChain.single harmless_bareSelect).cons (harmless_explaining _) hsecond).cons
    (harmless_explaining _) hfirst
  have hunknown : Explains (explaining (.ascii "ANALYZE SELECT 2")) (.ascii "SELECT 2") :=
    explained?_eq_some.mp (by decide)
  refine ⟨hchain, ?_, ?_, ?_, ?_, ?_, ?_, ?_⟩
  · obtain ⟨-, -, -, hquery, -⟩ := mutates_verdict explainingGrammar
      (explaining (.ascii "Analyze EXPLAIN ANALYZE SELECT 1"))
    exact hquery _ _ hchain hplain 0
  · obtain ⟨-, -, -, -, -, -, hopen, -⟩ := mutates_verdict explainingGrammar
      (explaining (.ascii "Analyze EXPLAIN ANALYZE SELECT 1"))
    have hcut := (HarmlessChain.single (harmless_explaining _)).cons (harmless_explaining _) hfirst
    exact (hopen 1).mpr ⟨_, _, _, hcut, rfl, hlast⟩
  · obtain ⟨-, -, -, -, hclosed, -⟩ := mutates_verdict explainingGrammar
      (explaining (.ascii "ANALYZE SELECT 2"))
    have hrefuse : explainingGrammar.parse (.ascii "SELECT 2") (some .postgres) =
        .ok (.refused (.ascii "Invalid expression / Unexpected token: SELECT 2")) := rfl
    apply hclosed _ _ _ _ (.single (harmless_explaining _)) hunknown hrefuse
    intro us hus
    cases hus
  · obtain ⟨-, -, hchanging, -⟩ := mutates_verdict deletingGrammar bareDelete
    exact hchanging changes_bareDelete 0
  · obtain ⟨-, -, -, -, -, hdeletion, -⟩ := mutates_verdict deletingGrammar
      (explaining (.ascii "ANALYZE DELETE FROM t"))
    have hl : Leads deletingGrammar (explaining (.ascii "ANALYZE DELETE FROM t")) bareDelete :=
      ⟨.ascii "DELETE FROM t", _, explained?_eq_some.mp (by decide), rfl, rfl⟩
    exact hdeletion _ _ _ (.single (harmless_explaining _)) hl changes_bareDelete 0
  · obtain ⟨-, -, -, -, -, -, -, hbroken⟩ := mutates_verdict parselessGrammar
      (explaining (.ascii "ANALYZE SELECT 2"))
    exact (hbroken 1 _).mpr
      ⟨_, _, _, .single (harmless_explaining _), Nat.le_refl 1, hunknown, rfl⟩
  · obtain ⟨hother, -⟩ := mutates_verdict explainingGrammar (explaining (.ascii "ANALYZE SELECT 2"))
    obtain ⟨verdict, hv, hchange⟩ := hother (some .mysql) 0 (by decide)
    cases verdict with
    | false => exact hv
    | true =>
      obtain ⟨n, hn, hc⟩ := hchange.mp rfl
      exact absurd hc (harmless_explaining _ n hn)

end ScriptVet.Sql
