import ScriptVet.Grammar.Fixture
import ScriptVet.Proofs.Kql.Script
import ScriptVet.Proofs.Kql.SetCommand
import ScriptVet.Proofs.Sql.Statement
import ScriptVet.Proofs.Text.Map

namespace ScriptVet

open Ast (Node)

/-- An element with the property, behind which there is none that has it. -/
def Last {α : Type} (p : α → Prop) (xs : List α) (x : α) : Prop :=
  p x ∧ ∃ before after, xs = before ++ x :: after ∧ ∀ y ∈ after, ¬p y

namespace Last

variable {α β : Type} {p q : α → Prop} {xs : List α} {x : α}

theorem mem (h : Last p xs x) : x ∈ xs := by
  obtain ⟨-, before, after, rfl, -⟩ := h
  exact List.mem_append_right before List.mem_cons_self

theorem cons_iff {y : α} : Last p (y :: xs) x ↔ Last p xs x ∨ y = x ∧ p x ∧ ∀ z ∈ xs, ¬p z := by
  constructor
  · intro h
    obtain ⟨hx, before, after, hsplit, hafter⟩ := h
    cases before with
    | nil =>
      obtain ⟨rfl, rfl⟩ := List.cons.inj hsplit
      exact .inr ⟨rfl, hx, hafter⟩
    | cons b before => exact .inl ⟨hx, before, after, (List.cons.inj hsplit).2, hafter⟩
  · intro h
    rcases h with ⟨hx, before, after, rfl, hafter⟩ | ⟨rfl, hx, hxs⟩
    · exact ⟨hx, y :: before, after, rfl, hafter⟩
    · exact ⟨hx, [], xs, rfl, hxs⟩

theorem exists_iff : (∃ x, Last p xs x) ↔ ∃ x ∈ xs, p x := by
  constructor
  · intro h
    obtain ⟨x, hx⟩ := h
    exact ⟨x, hx.mem, hx.1⟩
  · intro h
    obtain ⟨x, hx, hp⟩ := h
    induction xs generalizing x with
    | nil => cases hx
    | cons y ys ih =>
      by_cases hlater : ∃ z ∈ ys, p z
      · obtain ⟨z, hz, hpz⟩ := hlater
        obtain ⟨w, hw⟩ := ih z hz hpz
        exact ⟨w, cons_iff.mpr (.inl hw)⟩
      · have hnone : ∀ z ∈ ys, ¬p z := fun z hz hpz => hlater ⟨z, hz, hpz⟩
        obtain rfl : x = y := (List.mem_cons.mp hx).resolve_right fun hys => hnone x hys hp
        exact ⟨x, cons_iff.mpr (.inr ⟨rfl, hp, hnone⟩)⟩

theorem congr (h : ∀ y ∈ xs, p y ↔ q y) (hlast : Last p xs x) : Last q xs x := by
  obtain ⟨hx, before, after, rfl, hafter⟩ := hlast
  refine ⟨(h x (by simp)).mp hx, before, after, rfl, fun y hy hq => hafter y hy ?_⟩
  exact (h y (by simp [hy])).mpr hq

/-- The last element of a selection comes from the last element that is selected with the property. -/
theorem filterMap_iff {f : α → Option β} {p : β → Prop} {y : β} :
    Last p (xs.filterMap f) y ↔ ∃ x, Last (fun x => ∃ y, f x = some y ∧ p y) xs x ∧ f x = some y := by
  constructor
  · intro h
    obtain ⟨hy, before, after, hsplit, hafter⟩ := h
    obtain ⟨front, back, rfl, -, hback⟩ := List.filterMap_eq_append_iff.mp hsplit
    obtain ⟨skipped, x, rest, rfl, -, hx, rfl⟩ := List.filterMap_eq_cons_iff.mp hback
    refine ⟨x, ⟨⟨y, hx, hy⟩, front ++ skipped, rest, by simp, ?_⟩, hx⟩
    intro z hz hpz
    obtain ⟨b, hb, hpb⟩ := hpz
    exact hafter b (List.mem_filterMap.mpr ⟨z, hz, hb⟩) hpb
  · intro h
    obtain ⟨x, ⟨⟨b, hb, hpb⟩, before, after, rfl, hafter⟩, hx⟩ := h
    obtain rfl := Option.some.inj (hb.symm.trans hx)
    refine ⟨hpb, before.filterMap f, after.filterMap f, by simp [hx], ?_⟩
    intro c hc hpc
    obtain ⟨z, hz, hzc⟩ := List.mem_filterMap.mp hc
    exact hafter z hz ⟨c, hzc, hpc⟩

end Last

theorem Text.Map.lastValue?_eq_some {α : Type} {key : Text} {ps : List (Text × α)} {value : α} :
    lastValue? key ps = some value ↔ Last (·.1 = key) ps (key, value) := by
  induction ps with
  | nil => simp [lastValue?, Last]
  | cons p ps ih =>
    rw [lastValue?, Option.or_eq_some_iff, ih, Last.cons_iff, lastValue?_eq_none]
    refine or_congr_right ?_
    constructor
    · intro h
      obtain ⟨hps, hp⟩ := h
      obtain ⟨hkey, hvalue⟩ := Option.ite_none_right_eq_some.mp hp
      obtain rfl := Option.some.inj hvalue
      exact ⟨Prod.ext hkey rfl, rfl, hps⟩
    · intro h
      obtain ⟨rfl, -, hps⟩ := h
      exact ⟨hps, if_pos rfl⟩

/-- What a setting is that has a value or none. -/
def Setting.ofValue : Option Text → Setting
  | none => .enabled
  | some value => .text value

namespace Kql.Statement

/-- What a text sets, if it is a `set` command. -/
def assigned (t : Text) : Option (Text × Setting) :=
  (setCommand? t).map fun c => (c.1, .ofValue c.2)

theorem settings_eq (s : Statement) : s.settings = .ofList (assigned s.text).toList := by
  rw [settings, assigned]
  rcases setCommand? s.text with _ | ⟨name, _ | value⟩ <;> rfl

theorem assigned_eq_some {t name : Text} {setting : Setting} :
    assigned t = some (name, setting) ↔
      ∃ value, SetForm t name value ∧ setting = .ofValue value := by
  simp only [assigned, ← setCommand?_eq_some, Option.map_eq_some_iff, Prod.exists, Prod.mk.injEq]
  constructor
  · intro h
    obtain ⟨name', value, hset, rfl, rfl⟩ := h
    exact ⟨value, hset, rfl⟩
  · intro h
    obtain ⟨value, hset, rfl⟩ := h
    exact ⟨name, value, hset, rfl, rfl⟩

end Kql.Statement

namespace Sql

/-- An assignment, with the clause and the statement that it is found in. -/
structure Assignment where
  statement : Statement
  clause : Node
  eq : Node

/-- A side of the assignment, written on one line and without comments. -/
def Assignment.Renders (a : Assignment) (side : Nat) (t : Text) : Prop :=
  ∃ n, a.eq.children[side]? = some n ∧
    a.statement.grammar.generate n a.statement.dialect ⟨false, false⟩ = .ok t

namespace Statement

/-- The assignments of a statement: for each of its clauses those below it, both in the order of
levels. -/
def listed (s : Statement) : List Assignment :=
  (s.root.byLevel.filter (·.kind = .setItem)).flatMap fun clause =>
    (clause.byLevel.filter fun n => n.kind = .eq ∧ 2 ≤ n.children.length).map (⟨s, clause, ·⟩)

/-- The text of a node, where the grammar gives one. -/
def rendered (s : Statement) (n : Node) : Text :=
  match s.grammar.generate n s.dialect ⟨false, false⟩ with
  | .ok t => t
  | .error _ => []

theorem generated_outcome {s : Statement} (steady : s.grammar.Steady) (n : Node) :
    (s.grammar.generated n s.dialect ⟨false, false⟩).outcome = .done (s.rendered n) := by
  obtain ⟨t, ht⟩ := steady.generate n s.dialect ⟨false, false⟩
  rw [Grammar.generated, rendered, ht]
  rfl

theorem generate_eq_ok_iff {s : Statement} (steady : s.grammar.Steady) {n : Node} {t : Text} :
    s.grammar.generate n s.dialect ⟨false, false⟩ = .ok t ↔ s.rendered n = t := by
  obtain ⟨t', ht⟩ := steady.generate n s.dialect ⟨false, false⟩
  rw [rendered, ht]
  exact Except.ok.injEq t' t ▸ Iff.rfl

theorem settings_outcome {s : Statement} (steady : s.grammar.Steady) :
    s.settings.outcome = .done (.ofList ((assignments s.root).map fun a =>
      (s.rendered a.1, .text (s.rendered a.2)))) := by
  rw [settings, Text.Map.ofList, List.foldl_map]
  refine Run.foldlM_eq_done (fun m a _ => ?_) ∅
  exact Run.bind_eq_done.mpr ⟨_, generated_outcome steady a.1,
    Run.bind_eq_done.mpr ⟨_, generated_outcome steady a.2, rfl⟩⟩

end Statement

namespace Assignment

/-- The pair that an assignment with both sides makes. -/
def pair? (a : Assignment) : Option (Text × Setting) :=
  match a.eq.children with
  | target :: value :: _ => some (a.statement.rendered target, .text (a.statement.rendered value))
  | _ => none

variable {a : Assignment} {key : Text}

theorem exists_sides (hsides : 2 ≤ a.eq.children.length) :
    ∃ target value rest, a.eq.children = target :: value :: rest := by
  match h : a.eq.children with
  | [] => simp [h] at hsides
  | [n] => simp [h] at hsides
  | target :: value :: rest => exact ⟨target, value, rest, rfl⟩

theorem pair?_eq_some {setting : Setting} (steady : a.statement.grammar.Steady)
    (hsides : 2 ≤ a.eq.children.length) :
    a.pair? = some (key, setting) ↔ a.Renders 0 key ∧ ∃ t, a.Renders 1 t ∧ setting = .text t := by
  obtain ⟨target, value, rest, hchildren⟩ := exists_sides hsides
  simp [pair?, Renders, hchildren, Statement.generate_eq_ok_iff steady, eq_comm]

theorem exists_renders (steady : a.statement.grammar.Steady) (hsides : 2 ≤ a.eq.children.length) :
    ∃ t, a.Renders 1 t := by
  obtain ⟨target, value, rest, hchildren⟩ := exists_sides hsides
  obtain ⟨t, ht⟩ := steady.generate value a.statement.dialect ⟨false, false⟩
  exact ⟨t, value, by rw [hchildren]; rfl, ht⟩

end Assignment

namespace Statement

theorem map_assignments (s : Statement) :
    (assignments s.root).map (fun a => (s.rendered a.1, Setting.text (s.rendered a.2))) =
      s.listed.filterMap Assignment.pair? := by
  rw [assignments, listed, List.map_flatMap, List.filterMap_flatMap, Node.findAll_eq]
  refine List.flatMap_congr fun clause _ => ?_
  rw [List.map_filterMap, List.filterMap_map, Node.findAll_eq, List.filterMap_filter,
    List.filterMap_filter]
  refine List.filterMap_congr fun n _ => ?_
  by_cases hk : n.kind = .eq
  · rcases hn : n.children with _ | ⟨target, _ | ⟨value, rest⟩⟩ <;> simp [hk, hn, Assignment.pair?]
  · simp [hk]

theorem of_mem_listed {ss : List Statement} {a : Assignment} (ha : a ∈ ss.flatMap listed) :
    a.statement ∈ ss ∧ 2 ≤ a.eq.children.length := by
  obtain ⟨s, hs, ha⟩ := List.mem_flatMap.mp ha
  obtain ⟨clause, -, ha⟩ := List.mem_flatMap.mp ha
  obtain ⟨n, hn, rfl⟩ := List.mem_map.mp ha
  exact ⟨hs, (of_decide_eq_true (List.mem_filter.mp hn).2).2⟩

end Statement

end Sql

/-- The pairs that a statement makes, one after the other. -/
def Statement.pairs : Statement → List (Text × Setting)
  | .kql s => (Kql.Statement.assigned s.text).toList
  | .sql s => s.listed.filterMap Sql.Assignment.pair?

namespace Script

/-- A script whose statements make their settings pair by pair makes all these pairs in turn. -/
theorem exists_settings {s : Script}
    (h : ∀ st ∈ s.statements, st.settings.outcome = .done (.ofList st.pairs)) :
    ∃ settings, s.settings.outcome = .done settings ∧
      ∀ key, settings.get? key = Text.Map.lastValue? key (s.statements.flatMap Statement.pairs) := by
  have hfold : s.settings.outcome =
      .done (s.statements.foldl (fun m st => m.merge (.ofList st.pairs)) ∅) := by
    rw [settings]
    exact Run.foldlM_eq_done (fun m st hst => Run.bind_eq_done.mpr ⟨_, h st hst, rfl⟩) ∅
  refine ⟨_, hfold, fun key => ?_⟩
  have hget (m : Settings) (sts : List Statement) :
      (sts.foldl (fun m st => m.merge (.ofList st.pairs)) m).get? key =
        (Text.Map.lastValue? key (sts.flatMap Statement.pairs)).or (m.get? key) := by
    induction sts generalizing m with
    | nil => rfl
    | cons st sts ih =>
      rw [List.foldl_cons, ih, Text.Map.get?_merge, Text.Map.get?_ofList, List.flatMap_cons,
        Text.Map.lastValue?_append, Option.or_assoc]
  rw [hget, Text.Map.get?_empty, Option.or_none]

/-- Where the pairs of a script are selected from a list, the last element that sets a key decides. -/
theorem exists_settings_selected {s : Script} {α : Type} {xs : List α}
    {select : α → Option (Text × Setting)} {Sets : Text → α → Prop} {Gives : Text → α → Setting → Prop}
    (hstatements : ∀ st ∈ s.statements, st.settings.outcome = .done (.ofList st.pairs))
    (hpairs : s.statements.flatMap Statement.pairs = xs.filterMap select)
    (hselect : ∀ x ∈ xs, ∀ key setting,
      select x = some (key, setting) ↔ Sets key x ∧ Gives key x setting)
    (hgives : ∀ x ∈ xs, ∀ key, Sets key x → ∃ setting, Gives key x setting) :
    ∃ settings, s.settings.outcome = .done settings ∧ ∀ key,
      ((∃ setting, settings.get? key = some setting) ↔ ∃ x ∈ xs, Sets key x) ∧
      ∀ setting, settings.get? key = some setting ↔
        ∃ x, Last (Sets key) xs x ∧ Gives key x setting := by
  obtain ⟨settings, hdone, hget⟩ := exists_settings hstatements
  have hsets (key : Text) : ∀ x ∈ xs, (∃ p, select x = some p ∧ p.1 = key) ↔ Sets key x := by
    intro x hx
    constructor
    · intro h
      obtain ⟨⟨_, setting⟩, hp, rfl⟩ := h
      exact ((hselect x hx _ setting).mp hp).1
    · intro h
      obtain ⟨setting, hsetting⟩ := hgives x hx key h
      exact ⟨_, (hselect x hx key setting).mpr ⟨h, hsetting⟩, rfl⟩
  have hlast (key : Text) (setting : Setting) : settings.get? key = some setting ↔
      ∃ x, Last (Sets key) xs x ∧ Gives key x setting := by
    rw [hget, hpairs, Text.Map.lastValue?_eq_some, Last.filterMap_iff]
    constructor
    · intro h
      obtain ⟨x, hx, hpair⟩ := h
      exact ⟨x, hx.congr (hsets key), ((hselect x hx.mem key setting).mp hpair).2⟩
    · intro h
      obtain ⟨x, hx, hsetting⟩ := h
      have hpair : select x = some (key, setting) :=
        (hselect x hx.mem key setting).mpr ⟨hx.1, hsetting⟩
      exact ⟨x, hx.congr fun y hy => (hsets key y hy).symm, hpair⟩
  refine ⟨settings, hdone, fun key => ⟨?_, hlast key⟩⟩
  rw [← Last.exists_iff]
  constructor
  · intro h
    obtain ⟨setting, hsetting⟩ := h
    obtain ⟨x, hx, -⟩ := (hlast key setting).mp hsetting
    exact ⟨x, hx⟩
  · intro h
    obtain ⟨x, hx⟩ := h
    obtain ⟨setting, hsetting⟩ := hgives x hx.mem key hx.1
    exact ⟨setting, (hlast key setting).mpr ⟨x, hx, hsetting⟩⟩

/-- The script of these statements of SQL. -/
def ofSql (engine : Text) (ss : List Sql.Statement) : Script := ⟨engine, ss.map .sql⟩

theorem settings_ofSql (engine : Text) {ss : List Sql.Statement} (steady : ∀ s ∈ ss, s.grammar.Steady) :
    ∀ st ∈ (ofSql engine ss).statements, st.settings.outcome = .done (.ofList st.pairs) := by
  intro st hst
  obtain ⟨s, hs, rfl⟩ := List.mem_map.mp hst
  change s.settings.outcome = _
  rw [Sql.Statement.settings_outcome (steady s hs), s.map_assignments]
  rfl

theorem pairs_ofSql (engine : Text) (ss : List Sql.Statement) :
    (ofSql engine ss).statements.flatMap Statement.pairs =
      (ss.flatMap Sql.Statement.listed).filterMap Sql.Assignment.pair? := by
  rw [ofSql, List.flatMap_map, List.filterMap_flatMap]
  rfl

theorem settings_ofKql (xs : List Text) :
    ∀ st ∈ (ofKql xs).statements, st.settings.outcome = .done (.ofList st.pairs) := by
  intro st hst
  obtain ⟨x, -, rfl⟩ := List.mem_map.mp hst
  exact congrArg Outcome.done (Kql.Statement.settings_eq ⟨x⟩)

theorem pairs_ofKql (xs : List Text) :
    (ofKql xs).statements.flatMap Statement.pairs = xs.filterMap Kql.Statement.assigned := by
  rw [ofKql, List.flatMap_map, List.filterMap_eq_flatMap_toList]
  rfl

/-- The settings of a script are complete, and the last assignment to a key decides. In SQL a key is set
when it is the left side of some listed assignment, and it has the right side of the last one; in KQL
when some statement is a `set` command for it, and it has the value of the last one, or is switched on
where that one has no value. -/
theorem settings_last_assignment :
    (∀ (engine : Text) (ss : List Sql.Statement), (∀ s ∈ ss, s.grammar.Steady) →
      ∃ settings, (ofSql engine ss).settings.outcome = .done settings ∧ ∀ key,
        ((∃ setting, settings.get? key = some setting) ↔
          ∃ a ∈ ss.flatMap Sql.Statement.listed, a.Renders 0 key) ∧
        ∀ setting, settings.get? key = some setting ↔
          ∃ a t, Last (·.Renders 0 key) (ss.flatMap Sql.Statement.listed) a ∧ a.Renders 1 t ∧
            setting = .text t) ∧
    ∀ xs : List Text, ∃ settings, (ofKql xs).settings.outcome = .done settings ∧ ∀ name,
      ((∃ setting, settings.get? name = some setting) ↔
        ∃ x ∈ xs, ∃ value, Kql.SetForm x name value) ∧
      ∀ setting, settings.get? name = some setting ↔
        ∃ x value, Last (fun x => ∃ value, Kql.SetForm x name value) xs x ∧
          Kql.SetForm x name value ∧ setting = .ofValue value := by
  constructor
  · intro engine ss steady
    -- every listed assignment has both sides, and its grammar writes them
    have hlisted (a : Sql.Assignment) (ha : a ∈ ss.flatMap Sql.Statement.listed) :
        a.statement.grammar.Steady ∧ 2 ≤ a.eq.children.length := by
      obtain ⟨hs, hsides⟩ := Sql.Statement.of_mem_listed ha
      exact ⟨steady _ hs, hsides⟩
    have hselect : ∀ a ∈ ss.flatMap Sql.Statement.listed, ∀ key setting,
        a.pair? = some (key, setting) ↔ a.Renders 0 key ∧ ∃ t, a.Renders 1 t ∧ setting = .text t :=
      fun a ha _ _ => Sql.Assignment.pair?_eq_some (hlisted a ha).1 (hlisted a ha).2
    have hgives : ∀ a ∈ ss.flatMap Sql.Statement.listed, ∀ key, a.Renders 0 key →
        ∃ setting, ∃ t, a.Renders 1 t ∧ setting = Setting.text t := by
      intro a ha key _
      obtain ⟨t, ht⟩ := Sql.Assignment.exists_renders (hlisted a ha).1 (hlisted a ha).2
      exact ⟨.text t, t, ht, rfl⟩
    simpa only [exists_and_left] using
      exists_settings_selected (settings_ofSql engine steady) (pairs_ofSql engine ss) hselect hgives
  · intro xs
    have hselect : ∀ x ∈ xs, ∀ name setting, Kql.Statement.assigned x = some (name, setting) ↔
        (∃ value, Kql.SetForm x name value) ∧
          ∃ value, Kql.SetForm x name value ∧ setting = .ofValue value := by
      intro x _ name setting
      rw [Kql.Statement.assigned_eq_some]
      constructor
      · intro h
        obtain ⟨value, hset, rfl⟩ := h
        exact ⟨⟨value, hset⟩, value, hset, rfl⟩
      · intro h
        exact h.2
    have hgives : ∀ x ∈ xs, ∀ name, (∃ value, Kql.SetForm x name value) →
        ∃ setting, ∃ value, Kql.SetForm x name value ∧ setting = Setting.ofValue value := by
      intro x _ name h
      obtain ⟨value, hset⟩ := h
      exact ⟨.ofValue value, value, hset, rfl⟩
    simpa only [exists_and_left] using
      exists_settings_selected (settings_ofKql xs) (pairs_ofKql xs) hselect hgives

/-- The assignment of a value to `K`. -/
def settingK (value : Text) : Node :=
  ⟨.eq, [], [], [], [],
    [⟨.column, .ascii "K", [], [], [], []⟩, ⟨.literal, value, [], [], [], []⟩]⟩

def clause (children : List Node) : Node := ⟨.setItem, [], [], [], [], children⟩

/-- A clause inside another one, and an assignment that stands below the outer one alone. -/
def nestedClauses : Sql.Statement where
  grammar :=
    { parses := []
      parseFault := none
      generateFault := none
      scopesFault := none
      fixedScopes := none : Fixture }.toGrammar
  engine := .ascii "postgresql"
  root := ⟨.set, [], [], [], [],
    [clause [clause [settingK (.ascii "1")], ⟨.other, [], [], [], [], [settingK (.ascii "2")]⟩]]⟩
  tables := ∅

/-- The inner clause comes after the outer one, so its assignment decides, although another one stands
behind it in the tree. A `set` command without a value replaces a value. -/
theorem settings_last_assignment_nested :
    (∃ settings, (ofSql (.ascii "postgresql") [nestedClauses]).settings.outcome = .done settings ∧
      settings.get? (.ascii "K") = some (.text (.ascii "1"))) ∧
    ∃ settings, (ofKql [.ascii "set K = 1", .ascii "set K", .ascii "T"]).settings.outcome =
        .done settings ∧
      settings.get? (.ascii "K") = some .enabled := by
  obtain ⟨hsql, hkql⟩ := settings_last_assignment
  constructor
  · have steady : ∀ s ∈ [nestedClauses], s.grammar.Steady := by
      intro s hs
      obtain rfl := List.mem_singleton.mp hs
      exact Fixture.steady rfl rfl rfl
    obtain ⟨settings, hdone, hget⟩ := hsql (.ascii "postgresql") [nestedClauses] steady
    have hlast : Last (·.Renders 0 (.ascii "K")) ([nestedClauses].flatMap Sql.Statement.listed)
        ⟨nestedClauses, clause [settingK (.ascii "1")], settingK (.ascii "1")⟩ :=
      ⟨⟨_, rfl, rfl⟩, [_, _], [], rfl, nofun⟩
    exact ⟨settings, hdone, ((hget _).2 _).mpr ⟨_, .ascii "1", hlast, ⟨_, rfl, rfl⟩, rfl⟩⟩
  · obtain ⟨settings, hdone, hget⟩ := hkql [.ascii "set K = 1", .ascii "set K", .ascii "T"]
    have hset : Kql.SetForm (.ascii "set K") (.ascii "K") none := Kql.setCommand?_eq_some.mp rfl
    have hlast : Last (fun x => ∃ value, Kql.SetForm x (.ascii "K") value)
        [.ascii "set K = 1", .ascii "set K", .ascii "T"] (.ascii "set K") := by
      refine ⟨⟨none, hset⟩, [_], [_], rfl, fun t ht hform => ?_⟩
      obtain rfl := List.mem_singleton.mp ht
      obtain ⟨value, hform⟩ := hform
      cases Kql.setCommand?_eq_some.mpr hform
    exact ⟨settings, hdone, ((hget _).2 _).mpr ⟨_, none, hlast, hset, rfl⟩⟩

end Script

end ScriptVet
