import ScriptVet.Proofs.Kql.Statement
import ScriptVet.Proofs.Sql.Statement
import ScriptVet.Statement

namespace ScriptVet

open Ast (Node)

section Sole

variable {α : Type} {language : Language} {t : Text}

/-- The one statement of a text, where `parts` says what its statements are. -/
def sole (language : Language) (t : Text) (parts : Except Rejection (List α)) : Except Rejection α :=
  match parts with
  | .error e => .error e
  | .ok [s] => .ok s
  | .ok ss => .error ⟨.notSingle language ss.length, t.excerpt⟩

theorem sole_of_length_ne {ss : List α} (h : ss.length ≠ 1) :
    sole language t (.ok ss) = .error ⟨.notSingle language ss.length, t.excerpt⟩ := by
  match ss with
  | [] => rfl
  | [s] => exact absurd rfl h
  | s :: u :: us => rfl

theorem sole_eq_ok {parts : Except Rejection (List α)} {s : α} :
    sole language t parts = .ok s ↔ parts = .ok [s] := by
  constructor
  · intro h
    match parts with
    | .ok [u] => rw [Except.ok.inj h]
    | .error e => cases h
    | .ok [] => cases h
    | .ok (u :: v :: us) => cases h
  · rintro rfl
    rfl

/-- How the statements of a text and the text as one statement belong together: the statement is the
only one, the errors of splitting are passed on, and any other number of statements is reported. -/
structure Agree (language : Language) (t : Text) (parts : Except Rejection (List α))
    (whole : Except Rejection α) : Prop where
  accepted_iff : (∃ s, whole = .ok s) ↔ ∃ ss, parts = .ok ss ∧ ss.length = 1
  same : ∀ s, whole = .ok s → parts = .ok [s]
  rejected : ∀ e, parts = .error e → whole = .error e
  notSingle : ∀ ss, parts = .ok ss → ss.length ≠ 1 → ∃ e, whole = .error e ∧
    e.cause = .notSingle language ss.length ∧ e.cause.code = .ascii "not_single_statement" ∧
    e.context = t.take 80

theorem agree_sole (parts : Except Rejection (List α)) :
    Agree language t parts (sole language t parts) where
  accepted_iff := by
    simp only [sole_eq_ok]
    constructor
    · rintro ⟨s, rfl⟩
      exact ⟨[s], rfl, rfl⟩
    · rintro ⟨ss, rfl, hlen⟩
      obtain ⟨s, rfl⟩ := List.length_eq_one_iff.mp hlen
      exact ⟨s, rfl⟩
  same s h := sole_eq_ok.mp h
  rejected := by
    rintro e rfl
    rfl
  notSingle := by
    rintro ss rfl hlen
    exact ⟨_, sole_of_length_ne hlen, rfl, rfl, rfl⟩

end Sole

namespace Kql.Statement

/-- Reading asks for one segment, of which splitting makes one statement. -/
theorem outcome_read (t : Text) :
    (read t Kql.engine).outcome = .done (sole .kql t (.ok ((segments t).map fun s => ⟨s.trim⟩))) := by
  match h : segments t with
  | [s] =>
    rw [read_single h]
    rfl
  | [] =>
    rw [read, if_neg (not_not_intro rfl), h]
    rfl
  | s :: u :: us =>
    rw [read, if_neg (not_not_intro rfl), h, List.map_cons, List.map_cons]
    simp [sole, Run.pure_eq]

end Kql.Statement

/-- Reading wraps a root only when there is one root, and splitting wraps every root. -/
theorem Sql.Statement.outcome_read {g : Grammar} {engine t : Text} {us : List (Option Node)}
    {ss : List Statement} (h : g.parse t (Dialect.ofEngine? engine) = .ok (.units us))
    (hss : ((us.filterMap id).mapM (ofRoot g engine)).outcome = .done ss) :
    (read (some g) t engine).outcome = .done (sole .sql t (.ok ss)) := by
  rw [read, Run.bind_done (by rw [roots_units h])]
  generalize us.filterMap id = roots at hss ⊢
  cases Run.mapM_eq_done.mp hss with
  | nil => rfl
  | cons hs hrest =>
    cases hrest with
    | nil => exact Run.bind_eq_done.mpr ⟨_, hs, rfl⟩
    | cons hs' hrest => simp [sole, hrest.length_eq, Run.pure_eq]

/-- Reading a text as one statement and splitting it agree in both languages. A KQL text is always
split, into one statement for each segment. What a grammar that does not break down reads is split into
one statement for each unit that is not void, in their order, and without a grammar, or when it refuses
the text, there is an error. Where there is one statement, reading gives this very statement, so all
that can be asked about it is the same. -/
theorem read_agrees_with_split :
    (∀ t, ∃ ss whole,
      (Kql.Statement.split t Kql.engine).outcome = .done (.ok ss) ∧
      ss.map (·.text) = (Kql.segments t).map Text.trim ∧
      (Kql.Statement.read t Kql.engine).outcome = .done whole ∧
      Agree .kql t (.ok ss) whole) ∧
    ∀ (grammar : Option Grammar) (t engine : Text), (∀ g, grammar = some g → g.Steady) →
      ∃ parts whole,
        (Sql.Statement.split grammar t engine).outcome = .done parts ∧
        (Sql.Statement.read grammar t engine).outcome = .done whole ∧
        Agree .sql t parts whole ∧
        (grammar = none → parts = .error ⟨.noGrammar, t.take 80⟩) ∧
        ∀ g, grammar = some g →
          (∀ reason, g.parse t (Dialect.ofEngine? engine) = .ok (.refused reason) →
            parts = .error ⟨.unparseable reason, t.take 80⟩) ∧
          (∀ us, g.parse t (Dialect.ofEngine? engine) = .ok (.units us) → ∃ ss, parts = .ok ss ∧
            List.Forall₂ (Sql.Statement.Wraps g engine) ss (us.filterMap id)) := by
  refine ⟨?kql, ?sql⟩
  case kql =>
    intro t
    refine ⟨(Kql.segments t).map fun s => ⟨s.trim⟩, _, ?_, ?_, Kql.Statement.outcome_read t,
      agree_sole _⟩
    · rw [Kql.Statement.split_eq]
    · rw [List.map_map]
      rfl
  case sql =>
    intro grammar t engine steady
    cases grammar with
    | none =>
      refine ⟨_, _, rfl, rfl, agree_sole (.error ⟨.noGrammar, t.excerpt⟩), fun _ => rfl, ?_⟩
      intro g hg
      cases hg
    | some g =>
      have hsteady : g.Steady := steady g rfl
      obtain ⟨p, hp⟩ := hsteady.parse t (Dialect.ofEngine? engine)
      cases p with
      | refused reason =>
        refine ⟨_, _, Sql.Statement.split_refused hp, Sql.Statement.read_refused hp,
          agree_sole (.error ⟨.unparseable reason, t.excerpt⟩), nofun, ?_⟩
        rintro _ ⟨⟩
        rw [hp]
        refine ⟨?_, nofun⟩
        rintro _ ⟨⟩
        rfl
      | units us =>
        obtain ⟨ss, hss⟩ := Sql.Statement.exists_statements hsteady engine (us.filterMap id)
        refine ⟨_, _, Sql.Statement.outcome_split hp hss, Sql.Statement.outcome_read hp hss,
          agree_sole (.ok ss), nofun, ?_⟩
        rintro _ ⟨⟩
        rw [hp]
        refine ⟨nofun, ?_⟩
        rintro _ ⟨⟩
        exact ⟨ss, rfl, Sql.Statement.forall₂_wraps hss⟩

/-- Two segments are no statement; a void unit beside an explanation does not count. -/
theorem read_agrees_with_split_void_unit :
    (∃ e, (Kql.Statement.read (.ascii "a;b") Kql.engine).outcome = .done (.error e) ∧
      e.cause = .notSingle .kql 2) ∧
    ∃ s, (Sql.Statement.read (some Sql.explainingGrammar) (.ascii "EXPLAIN ANALYZE SELECT 1")
        (.ascii "postgresql")).outcome = .done (.ok s) ∧
      (Sql.Statement.split (some Sql.explainingGrammar) (.ascii "EXPLAIN ANALYZE SELECT 1")
        (.ascii "postgresql")).outcome = .done (.ok [s]) ∧
      s.root = Sql.explaining (.ascii "analyze SELECT 1") := by
  obtain ⟨hkql, hsql⟩ := read_agrees_with_split
  constructor
  · obtain ⟨ss, whole, hsplit, -, hread, hagree⟩ := hkql (.ascii "a;b")
    have htwo : (Kql.Statement.split (.ascii "a;b") Kql.engine).outcome =
        .done (.ok [⟨.ascii "a"⟩, ⟨.ascii "b"⟩]) := rfl
    obtain rfl := Except.ok.inj (Outcome.done.inj (htwo.symm.trans hsplit))
    obtain ⟨e, rfl, hcause, -⟩ := hagree.notSingle _ rfl (by decide)
    exact ⟨e, hread, hcause⟩
  · obtain ⟨parts, whole, hsplit, hread, hagree, -, hparts⟩ := hsql (some Sql.explainingGrammar)
      (.ascii "EXPLAIN ANALYZE SELECT 1") (.ascii "postgresql") (by
        rintro g ⟨⟩
        exact Fixture.steady rfl rfl rfl)
    obtain ⟨-, hunits⟩ := hparts _ rfl
    obtain ⟨ss, rfl, hwraps⟩ :=
      hunits [none, some (Sql.explaining (.ascii "analyze SELECT 1"))] rfl
    obtain ⟨s, rest, hs, hrest, rfl⟩ := List.forall₂_cons_right_iff.mp hwraps
    obtain rfl := List.forall₂_nil_right_iff.mp hrest
    obtain ⟨s', rfl⟩ := hagree.accepted_iff.mpr ⟨[s], rfl, rfl⟩
    obtain rfl : s = s' := (List.cons.inj (Except.ok.inj (hagree.same s' rfl))).1
    exact ⟨s, hread, hsplit, hs.root⟩

end ScriptVet
