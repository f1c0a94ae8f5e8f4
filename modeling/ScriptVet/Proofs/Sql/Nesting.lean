import ScriptVet.Proofs.Sql.Statement
import ScriptVet.Proofs.Text.Trim

namespace ScriptVet

open Ast (Node)

/-- No literal right below a command is longer than the text that the command was read from. -/
def Grammar.Bounded (g : Grammar) : Prop :=
  ∀ t dialect us unit literal, g.parse t dialect = .ok (.units us) → some unit ∈ us →
    unit.kind = .command → literal ∈ unit.children → literal.kind = .literal →
    literal.name.length ≤ t.length

namespace Sql

variable {g : Grammar} {root : Node} {target : Text}

/-- The length of the first literal right below a node, or 0 where there is none. -/
def operandLength (n : Node) : Nat :=
  match n.child? .literal with
  | some operand => operand.name.length
  | none => 0

theorem Explains.length_target (he : Explains root target) :
    target.length + 8 = operandLength root := by
  obtain ⟨-, -, operand, word, hchild, hname, hword⟩ := he
  have hlen : word.length = 8 := by
    rw [← Text.length_upper, hword]
    rfl
  rw [operandLength, Node.child?_eq_some.mpr hchild]
  simp [hname, hlen, Nat.add_comm]

/-- What `root` explains is shorter by the word in front of it than `bound`. -/
def Fits (root : Node) (bound : Nat) : Prop :=
  ∀ target, Explains root target → target.length + 8 ≤ bound

theorem fits_operandLength (root : Node) : Fits root (operandLength root) :=
  fun _ he => Nat.le_of_eq he.length_target

theorem fits_of_bounded (hg : g.Bounded) {t : Text} {dialect : Option Dialect} {p : Parse}
    {unit : Node} (hp : g.parse t dialect = .ok p) (hone : p.single? = some unit) :
    Fits unit t.length := by
  intro target he
  obtain ⟨us, rfl, hus⟩ := Parse.single?_eq_some.mp hone
  obtain ⟨operand, word, hchild, hname, -⟩ := he.operand
  have hlen : target.length + 8 = operand.name.length := by
    rw [he.length_target, operandLength, Node.child?_eq_some.mpr hchild]
  have hunit : some unit ∈ us := by
    have hmem : unit ∈ us.filterMap id := hus ▸ List.mem_singleton_self unit
    simpa using hmem
  obtain ⟨hkind, before, after, hchildren, -⟩ := hchild
  have hbelow : operand ∈ unit.children := by simp [hchildren]
  rw [hlen]
  exact hg t dialect us unit operand hp hunit he.command hbelow hkind

/-- Each question wants a text parsed that is at least 8 bytes shorter than the one before; the first
one is shorter by as much than `bound`. -/
inductive Descends (dialect : Option Dialect) : Nat → List Grammar.Call → Prop where
  | nil (bound : Nat) : Descends dialect bound []
  | cons {bound : Nat} {t : Text} {rest : List Grammar.Call} : t.length + 8 ≤ bound →
      Descends dialect t.length rest → Descends dialect bound (.parse t dialect :: rest)

theorem Descends.length_le {dialect : Option Dialect} {bound : Nat} {calls : List Grammar.Call}
    (h : Descends dialect bound calls) : calls.length ≤ bound / 8 := by
  induction h with
  | nil => exact Nat.zero_le _
  | cons hlen _ ih =>
    rw [List.length_cons]
    omega

/-- What a judgement within some nesting comes to: the texts that it asks for get shorter, and it ends
where the nesting allows for one of them in every 8 bytes of the bound. -/
structure Within (bound nesting : Nat) (r : Run Bool) : Prop where
  descends : Descends (some .postgres) bound r.calls
  ends : bound / 8 ≤ nesting → r.outcome ≠ .unfinished

theorem mutates_within (hg : g.Bounded) (nesting : Nat) {root : Node} {bound : Nat}
    (hfits : Fits root bound) : Within bound nesting (mutates g (some .postgres) nesting root) := by
  rcases changing_or_plain_or_explains root with hc | ⟨h, hplain⟩ | ⟨h, target, he⟩
  · rw [mutates_changing _ hc]
    exact ⟨.nil bound, fun _ => nofun⟩
  · rw [mutates_plain _ h hplain]
    exact ⟨.nil bound, fun _ => nofun⟩
  · have hlen : target.length + 8 ≤ bound := hfits target he
    cases nesting with
    | zero =>
      rw [mutates_zero h he]
      exact ⟨.nil bound, fun hbound => by omega⟩
    | succ nesting =>
      cases hp : g.parse target (some .postgres) with
      | error what =>
        rw [mutates_broken nesting h he hp]
        exact ⟨.cons hlen (.nil _), fun _ => nofun⟩
      | ok p =>
        cases hone : p.single? with
        | none =>
          rw [mutates_closed nesting h he hp hone]
          exact ⟨.cons hlen (.nil _), fun _ => nofun⟩
        | some unit =>
          have hunit : Within target.length nesting (mutates g (some .postgres) nesting unit) :=
            mutates_within hg nesting (fits_of_bounded hg hp hone)
          rw [mutates_single nesting h he hp hone]
          exact ⟨.cons hlen hunit.descends, fun hbound => hunit.ends (by omega)⟩

/-- A statement that explains itself is never judged, so the bound on operands cannot be left out. -/
theorem mutates_endless (h : Harmless root) (hself : Leads g root root) (nesting : Nat) :
    (mutates g (some .postgres) nesting root).outcome = .unfinished := by
  induction nesting with
  | zero =>
    obtain ⟨target, us, he, -⟩ := hself
    rw [mutates_zero h he]
    rfl
  | succ nesting ih => rw [mutates_leads nesting h hself, ih]

/-- With a grammar that puts nothing into an operand that was not in the text, every statement is
judged: the run is the same for all nestings from an eighth of its operand's length on, it is done unless
an answer breaks down, and it asks for at most that many texts to be parsed, each of them at least 8
bytes shorter than the one before, the first of them than the operand. -/
theorem judged_within_operand (g : Grammar) (hg : g.Bounded) (dialect : Option Dialect) (root : Node) :
    ∃ r : Run Bool,
      (∀ nesting, operandLength root / 8 ≤ nesting → mutates g dialect nesting root = r) ∧
      ((∃ verdict, r.outcome = .done verdict) ∨
        ∃ c ∈ r.calls, ∃ what, g.fault? c = some what ∧ r.outcome = .broken what) ∧
      r.calls.length ≤ operandLength root / 8 ∧
      Descends dialect (operandLength root) r.calls := by
  by_cases hd : dialect = some .postgres
  · subst hd
    have hwithin := mutates_within hg (operandLength root / 8) (fits_operandLength root)
    have hends : (mutates g (some .postgres) (operandLength root / 8) root).outcome ≠ .unfinished :=
      hwithin.ends (Nat.le_refl _)
    have hfaithful : Run.Faithful g (mutates g (some .postgres) (operandLength root / 8) root) :=
      (Run.law_faithful g).mutates (fun _ _ => Run.faithful_ask rfl) (fun _ => rfl) _ root
    refine ⟨_, fun nesting hnesting => ?_, ?_, hwithin.descends.length_le, hwithin.descends⟩
    · obtain ⟨more, rfl⟩ := Nat.exists_eq_add_of_le hnesting
      exact mutates_add _ more hends
    · cases ho : (mutates g (some .postgres) (operandLength root / 8) root).outcome with
      | done verdict => exact .inl ⟨verdict, rfl⟩
      | broken what =>
        obtain ⟨c, hc, hfault⟩ := (hfaithful.broken_iff what).mp ho
        exact .inr ⟨c, hc, what, hfault, rfl⟩
      | unfinished => exact absurd ho hends
  · obtain ⟨verdict, hverdict⟩ :
        ∃ verdict, ∀ nesting, mutates g dialect nesting root = pure verdict := by
      rcases changing_or_plain_or_explains root with hc | ⟨h, -⟩ | ⟨h, -⟩
      · exact ⟨true, fun nesting => mutates_changing nesting hc⟩
      all_goals exact ⟨false, fun nesting => mutates_other nesting h hd⟩
    exact ⟨pure verdict, fun nesting _ => hverdict nesting, .inl ⟨verdict, rfl⟩, Nat.zero_le _,
      .nil _⟩

end Sql

theorem Text.length_trim_le (t : Text) : t.trim.length ≤ t.length := by
  obtain ⟨u, w, -, -, ht⟩ := exists_blank_trim t
  have hlen := congrArg List.length ht
  rw [List.length_append, List.length_append] at hlen
  omega

/-- A table of texts is bounded when each of its entries is. -/
theorem Fixture.bounded {f : Fixture}
    (h : ∀ p ∈ f.parses, ∀ us, p.2 = .units us → ∀ unit, some unit ∈ us → unit.kind = .command →
      ∀ literal ∈ unit.children, literal.kind = .literal → literal.name.length ≤ p.1.trim.length) :
    f.toGrammar.Bounded := by
  intro t dialect us unit literal hp hunit hkind hchild hliteral
  have hlookup : f.lookup t = .units us := by
    cases hfault : f.parseFault with
    | none => simpa [toGrammar, answer, hfault] using hp
    | some what => simp [toGrammar, answer, hfault] at hp
  rw [lookup, List.findRev?_eq_find?_reverse] at hlookup
  split at hlookup
  · rename_i p hfind
    have hkey : p.1.trim = t.trim := by simpa using List.find?_some hfind
    have hmem : p ∈ f.parses := List.mem_reverse.mp (List.mem_of_find?_eq_some hfind)
    calc literal.name.length ≤ p.1.trim.length :=
          h p hmem us hlookup unit hunit hkind literal hchild hliteral
      _ ≤ t.length := hkey ▸ t.length_trim_le
  · cases hlookup

namespace Sql

theorem explainingGrammar_bounded : explainingGrammar.Bounded := by
  apply Fixture.bounded
  intro p hp us hus unit hunit hkind literal hliteral
  simp only [List.mem_cons, List.not_mem_nil, or_false] at hp
  rcases hp with rfl | rfl <;> cases hus
  · obtain rfl : unit = bareSelect := by simpa using hunit
    cases hkind
  · obtain rfl : unit = explaining (.ascii "analyze SELECT 1") := by simpa using hunit
    obtain rfl := List.mem_singleton.mp hliteral
    decide

/-- One explanation inside another one: 32 bytes allow for four questions, none of which breaks down. -/
theorem judged_within_operand_twice :
    explainingGrammar.Bounded ∧
      operandLength (explaining (.ascii "Analyze EXPLAIN ANALYZE SELECT 1")) = 32 ∧
      ∃ (r : Run Bool) (verdict : Bool), r.outcome = .done verdict ∧
        Descends (some .postgres) 32 r.calls ∧ r.calls.length ≤ 4 ∧
        ∀ nesting, 4 ≤ nesting → mutates explainingGrammar (some .postgres) nesting
          (explaining (.ascii "Analyze EXPLAIN ANALYZE SELECT 1")) = r := by
  obtain ⟨r, hr, hdone, hlen, hcalls⟩ := judged_within_operand explainingGrammar
    explainingGrammar_bounded (some .postgres) (explaining (.ascii "Analyze EXPLAIN ANALYZE SELECT 1"))
  have hsteady : explainingGrammar.Steady := Fixture.steady rfl rfl rfl
  rcases hdone with ⟨verdict, hverdict⟩ | ⟨c, -, what, hfault, -⟩
  · exact ⟨explainingGrammar_bounded, rfl, r, verdict, hverdict, hcalls, hlen, hr⟩
  · rw [hsteady.fault?_eq_none c] at hfault
    cases hfault

end Sql

end ScriptVet
