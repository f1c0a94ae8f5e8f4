import ScriptVet.Proofs.Run.Law
import ScriptVet.Proofs.Sql.Mutation
import ScriptVet.Proofs.Sql.References
import ScriptVet.Sql.Statement

namespace ScriptVet

open Ast (Node)

namespace Run.Law

variable {P : {α : Type} → Run α → Prop} {g : Grammar} {dialect : Option Dialect}

theorem commandTables (law : Law P) (parsed : ∀ t, P (g.parsed t dialect)) (command : Node) :
    P (Sql.commandTables g dialect command) := by
  rw [Sql.commandTables]
  split
  · exact law.pure ∅
  · refine law.bind (parsed _) fun p _ => ?_
    cases p with
    | refused reason => exact law.bind (law.note _ _) fun _ _ => law.pure _
    | units us =>
      dsimp only
      split
      · exact law.pure _
      · exact law.bind (law.note _ _) fun _ _ => law.pure _

theorem scopeTables (law : Law P) (scopes : ∀ root, P (g.scopes root)) (root : Node) :
    P (Sql.scopeTables g root) := by
  refine law.bind (scopes root) fun answer _ => ?_
  exact law.bind (law.forM fun _ _ => law.note _ _) fun _ _ => law.pure _

theorem references (law : Law P) (parsed : ∀ t, P (g.parsed t dialect))
    (scopes : ∀ root, P (g.scopes root)) (root : Node) : P (Sql.references g dialect root) := by
  rw [Sql.references]
  split
  · exact law.pure _
  · exact law.commandTables parsed root
  · exact law.scopeTables scopes root

/-- The verdict asks nothing outside of Postgres, and gives up where statements are nested too deep. -/
theorem mutates (law : Law P) (parsed : dialect = some .postgres → ∀ t, P (g.parsed t dialect))
    (unfinished : dialect = some .postgres → P (Run.unfinished : Run Bool)) (nesting : Nat)
    (root : Node) : P (Sql.mutates g dialect nesting root) := by
  rcases Sql.changing_or_plain_or_explains root with hc | ⟨h, hplain⟩ | ⟨h, target, he⟩
  · rw [Sql.mutates_changing _ hc]
    exact law.pure true
  · rw [Sql.mutates_plain _ h hplain]
    exact law.pure false
  · by_cases hd : dialect = some .postgres
    · cases nesting with
      | zero =>
        rw [hd, Sql.mutates_zero h he]
        exact unfinished hd
      | succ nesting =>
        have hparsed : P (g.parsed target (some .postgres)) := hd ▸ parsed hd target
        rw [hd, Sql.mutates_succ nesting h he]
        refine law.bind hparsed fun p _ => ?_
        rw [Sql.verdictOn]
        cases p.single? with
        | some unit => exact hd ▸ mutates law parsed unfinished nesting unit
        | none => exact law.bind (law.note .warn (Sql.complaint p)) fun _ _ => law.pure true
    · rw [Sql.mutates_other _ h hd]
      exact law.pure false

theorem ofRoot (law : Law P) {engine : Text}
    (parsed : ∀ t, P (g.parsed t (Dialect.ofEngine? engine))) (scopes : ∀ root, P (g.scopes root))
    (root : Node) : P (Sql.Statement.ofRoot g engine root) :=
  law.bind (law.references parsed scopes root) fun _ _ => law.pure _

theorem sqlSettings (law : Law P) (s : Sql.Statement)
    (generated : ∀ n style, P (s.grammar.generated n s.dialect style)) : P s.settings := by
  refine law.foldlM (fun settings a _ => ?_) ∅
  exact law.bind (generated _ _) fun _ _ => law.bind (generated _ _) fun _ _ => law.pure _

theorem roots (law : Law P) {engine : Text}
    (parsed : ∀ t, P (g.parsed t (Dialect.ofEngine? engine))) (t : Text) :
    P (Sql.Statement.roots g t engine) := by
  refine law.bind (parsed t) fun p _ => ?_
  cases p with
  | refused reason => exact law.bind (law.note _ _) fun _ _ => law.pure _
  | units us => exact law.pure _

theorem sqlSplit (law : Law P) {engine : Text}
    (parsed : ∀ t, P (g.parsed t (Dialect.ofEngine? engine))) (scopes : ∀ root, P (g.scopes root))
    (t : Text) : P (Sql.Statement.split (some g) t engine) := by
  refine law.bind (law.roots parsed t) fun answer _ => ?_
  cases answer with
  | error e => exact law.pure _
  | ok ns =>
    exact law.bind (law.mapM fun root _ => law.ofRoot parsed scopes root) fun _ _ => law.pure _

end Run.Law

namespace Sql.Statement

variable {g : Grammar} {engine : Text}

/-- A statement wraps one root, with the tables that the root refers to. -/
structure Wraps (g : Grammar) (engine : Text) (s : Statement) (root : Node) : Prop where
  tables : (references g (Dialect.ofEngine? engine) root).outcome = .done s.tables
  dialect : s.dialect = Dialect.ofEngine? engine
  engine : s.engine = engine
  grammar : s.grammar = g
  root : s.root = root

theorem wraps_of_ofRoot {root : Node} {s : Statement} (h : (ofRoot g engine root).outcome = .done s) :
    Wraps g engine s root := by
  obtain ⟨tables, htables, hs⟩ := Run.bind_eq_done.mp h
  obtain rfl : ⟨g, engine, root, tables⟩ = s := Outcome.done.inj hs
  exact ⟨htables, rfl, rfl, rfl, rfl⟩

/-- Root by root, the statements wrap what they are made of. -/
theorem forall₂_wraps {roots : List Node} {ss : List Statement}
    (h : (roots.mapM (ofRoot g engine)).outcome = .done ss) :
    List.Forall₂ (Wraps g engine) ss roots := by
  have hwraps := (Run.mapM_eq_done.mp h).imp fun _ _ => wraps_of_ofRoot
  exact hwraps.flip

theorem mapM_ofRoot {roots : List Node} {ss : List Statement}
    (h : (roots.mapM (ofRoot g engine)).outcome = .done ss) :
    ss.map (·.root) = roots ∧ ∀ s ∈ ss, s.grammar = g ∧ s.engine = engine := by
  have hwraps := forall₂_wraps h
  clear h
  induction hwraps with
  | nil => simp
  | cons hs _ ih =>
    obtain ⟨hroots, hall⟩ := ih
    exact ⟨by simp [hs.root, hroots], List.forall_mem_cons.mpr ⟨⟨hs.grammar, hs.engine⟩, hall⟩⟩

theorem roots_refused {t reason : Text}
    (h : g.parse t (Dialect.ofEngine? engine) = .ok (.refused reason)) :
    (roots g t engine).outcome = .done (.error ⟨.unparseable reason, t.excerpt⟩) := by
  rw [roots, Grammar.parsed, h, Run.ask_ok, Run.bind_done rfl]
  rfl

theorem read_refused {t reason : Text}
    (h : g.parse t (Dialect.ofEngine? engine) = .ok (.refused reason)) :
    (read (some g) t engine).outcome = .done (.error ⟨.unparseable reason, t.excerpt⟩) := by
  rw [read, Run.bind_done (roots_refused h)]
  rfl

theorem roots_units {t : Text} {us : List (Option Node)}
    (h : g.parse t (Dialect.ofEngine? engine) = .ok (.units us)) :
    roots g t engine = ⟨[.call (.parse t (Dialect.ofEngine? engine))], .done (.ok (us.filterMap id))⟩ := by
  rw [roots, Grammar.parsed, h, Run.ask_ok, Run.bind_done rfl]
  rfl

theorem split_broken {t what : Text}
    (h : g.parse t (Dialect.ofEngine? engine) = .error what) :
    (split (some g) t engine).outcome = .broken what := by
  have hroots : (roots g t engine).outcome = .broken what := by
    rw [roots, Grammar.parsed, h, Run.ask_error, Run.bind_broken rfl]
  rw [split, Run.bind_broken hroots]

theorem split_refused {t reason : Text}
    (h : g.parse t (Dialect.ofEngine? engine) = .ok (.refused reason)) :
    (split (some g) t engine).outcome = .done (.error ⟨.unparseable reason, t.excerpt⟩) := by
  rw [split, Run.bind_done (roots_refused h)]
  rfl

theorem split_units {t : Text} {us : List (Option Node)}
    (h : g.parse t (Dialect.ofEngine? engine) = .ok (.units us)) :
    split (some g) t engine =
      g.parsed t (Dialect.ofEngine? engine) >>= fun _ =>
        .ok <$> (us.filterMap id).mapM (ofRoot g engine) := by
  rw [split, roots_units h, Grammar.parsed, h, Run.ask_ok, Run.bind_done rfl, Run.bind_done rfl]
  simp only [bind_pure_comp]

theorem outcome_split {t : Text} {us : List (Option Node)} {ss : List Statement}
    (h : g.parse t (Dialect.ofEngine? engine) = .ok (.units us))
    (hss : ((us.filterMap id).mapM (ofRoot g engine)).outcome = .done ss) :
    (split (some g) t engine).outcome = .done (.ok ss) := by
  rw [split_units h, Grammar.parsed, h, Run.ask_ok, Run.bind_done rfl]
  exact Run.map_eq_done.mpr ⟨ss, hss, rfl⟩

/-- A grammar that does not break down lets every root become a statement. -/
theorem exists_statements (steady : g.Steady) (engine : Text) (roots : List Node) :
    ∃ ss, (roots.mapM (ofRoot g engine)).outcome = .done ss := by
  have hparsed (t : Text) : ∃ p, (g.parsed t (Dialect.ofEngine? engine)).outcome = .done p := by
    obtain ⟨p, hp⟩ := steady.parse t (Dialect.ofEngine? engine)
    exact ⟨p, by rw [Grammar.parsed, hp, Run.ask_ok]⟩
  have hscopes (root : Node) : ∃ scopes, (g.scopes root).outcome = .done scopes := by
    obtain ⟨scopes, hs⟩ := steady.resolveScopes root
    exact ⟨scopes, by rw [Grammar.scopes, hs, Run.ask_ok]⟩
  exact Run.law_done.mapM fun root _ => Run.law_done.ofRoot hparsed hscopes root

end Sql.Statement

end ScriptVet
