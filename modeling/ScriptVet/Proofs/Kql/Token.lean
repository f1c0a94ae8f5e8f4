import ScriptVet.Kql.Token
import ScriptVet.Proofs.Kql.Segment
import ScriptVet.Proofs.Kql.Quote

namespace ScriptVet.Kql

namespace Quote

/-- The states in which no literal in quotes is open, so that a token can begin. -/
def Between (q : Quote) : Prop := q = outside ∨ q = multiline

namespace Between

variable {q : Quote}

theorem switched (hq : q.Between) : q.switched.Between := by
  rcases hq with rfl | rfl
  · exact .inr rfl
  · exact .inl rfl

theorem iterate (hq : q.Between) (n : Nat) : (Quote.switched^[n] q).Between := by
  induction n with
  | zero => exact hq
  | succ n ih =>
    rw [Function.iterate_succ_apply']
    exact ih.switched

theorem next_backtick (hq : q.Between) (before : Text) :
    q.next before backtick = if afterTwoBackticks before then q.switched else q := by
  rcases hq with rfl | rfl
  · exact outside_next_backtick before
  · exact multiline_next_backtick before

end Between

theorem afterTwoBackticks_replicate {before : Text} (h : before.head? ≠ some backtick) (n : Nat) :
    afterTwoBackticks (List.replicate n backtick ++ before) = decide (2 ≤ n) := by
  match n with
  | n + 2 => simp [List.replicate_succ, afterTwoBackticks, backtick]
  | 1 =>
    cases before with
    | nil => rfl
    | cons c before =>
      have hc : c ≠ Text.byte '\x60' := fun he => h (he ▸ rfl)
      simp [afterTwoBackticks, hc]
  | 0 =>
    rcases before with _ | ⟨c, _ | ⟨d, before⟩⟩
    · rfl
    · rfl
    · have hc : c ≠ Text.byte '\x60' := fun he => h (he ▸ rfl)
      simp [afterTwoBackticks, hc]

/-- Behind another byte, each backtick of a run from the third one on is a fence. -/
theorem Between.scan_backticks {q : Quote} (hq : q.Between) {before : Text}
    (h : before.head? ≠ some backtick) (n : Nat) :
    q.scan before (List.replicate n backtick) = Quote.switched^[n - 2] q := by
  induction n with
  | zero => rfl
  | succ n ih =>
    rw [List.replicate_succ', scan_concat, ih, List.reverse_replicate, (hq.iterate _).next_backtick,
      afterTwoBackticks_replicate h]
    by_cases hn : 2 ≤ n
    · have hcount : n + 1 - 2 = n - 2 + 1 := by omega
      rw [if_pos (decide_eq_true hn), hcount, Function.iterate_succ_apply']
    · have hcount : n + 1 - 2 = n - 2 := by omega
      rw [if_neg (by simpa using hn), hcount]

theorem outside_next_quote {quote : UInt8} (hquote : IsQuote quote) (before : Text) :
    outside.next before quote = ofQuote quote := by
  rcases hquote with rfl | rfl <;> rfl

theorem ofQuote_next {quote : UInt8} (hquote : IsQuote quote) (last c : UInt8) (before : Text) :
    (ofQuote quote).next (last :: before) c =
      if c = quote ∧ last ≠ backslash then outside else ofQuote quote := by
  rcases hquote with rfl | rfl
  · simp [ofQuote, next, afterBackslash, backslash]
  · have hne : Text.byte '"' ≠ Text.byte '\'' := by decide
    simp [ofQuote, hne, next, afterBackslash, backslash]

end Quote

/-- Tokens of `t` can be read behind `before` in state `q`: the state is one between tokens, and a run
of backticks at the beginning of `t` has not begun before. -/
structure Ready (q : Quote) (before t : Text) : Prop where
  between : t ≠ [] → q.Between
  fresh : t.head? = some backtick → before.head? ≠ some backtick

namespace Token

open Quote (IsQuote ofQuote)

variable {quote last : UInt8} {t content rest : Text} (before : Text)

/-- Without an end the literal goes on to the end of the text. -/
theorem scan_of_untilQuote?_eq_none (hquote : IsQuote quote) (h : untilQuote? quote last t = none)
    (i : Nat) : (ofQuote quote).scan (last :: before) (t.take i) = ofQuote quote := by
  induction t generalizing last before i with
  | nil => rw [List.take_nil, Quote.scan]
  | cons c t ih =>
    rw [untilQuote?] at h
    split at h
    · cases h
    · rename_i hopen
      cases i with
      | zero => rfl
      | succ i =>
        rw [List.take_succ_cons, Quote.scan, Quote.ofQuote_next hquote, if_neg hopen]
        exact ih _ (Option.map_eq_none_iff.mp h) i

theorem scan_of_untilQuote?_eq_some (hquote : IsQuote quote)
    (h : untilQuote? quote last t = some (content, rest)) :
    (∀ i, (ofQuote quote).scan (last :: before) (content.take i) = ofQuote quote) ∧
      (ofQuote quote).scan (last :: before) (content ++ [quote]) = .outside := by
  induction t generalizing last content before with
  | nil => cases h
  | cons c t ih =>
    rw [untilQuote?] at h
    split at h
    · rename_i hclose
      cases h
      refine ⟨fun i => by rw [List.take_nil, Quote.scan], ?_⟩
      rw [List.nil_append, Quote.scan, Quote.ofQuote_next hquote, if_pos ⟨rfl, hclose.2⟩, Quote.scan]
    · rename_i hopen
      obtain ⟨found, hfound, heq⟩ := Option.map_eq_some_iff.mp h
      cases heq
      obtain ⟨hinside, hend⟩ := ih (last :: before) hfound
      constructor
      · intro i
        cases i with
        | zero => rfl
        | succ i =>
          rw [List.take_succ_cons, Quote.scan, Quote.ofQuote_next hquote, if_neg hopen]
          exact hinside i
      · rw [List.cons_append, Quote.scan, Quote.ofQuote_next hquote, if_neg hopen]
        exact hend

variable {before}

/-- The token tells the states of its bytes, backticks apart, and the state behind it as they are when
it is met behind `before` in state `q`. -/
structure Matches (token : Token) (q : Quote) (before : Text) : Prop where
  length_states : (token.states q).length = token.text.length
  states : ∀ i < token.text.length, token.text[i]? ≠ some backtick →
    (token.states q)[i]? = some (q.scan before (token.text.take i))
  behind : token.behind q = q.scan before token.text

theorem backticks_matches {q : Quote} (hq : q.Between) (h : before.head? ≠ some backtick) (n : Nat) :
    (backticks n).Matches q before where
  length_states := by simp [Token.states, text]
  states i hi hc := by
    rw [text, List.length_replicate] at hi
    rw [text, List.getElem?_replicate_of_lt hi] at hc
    exact absurd rfl hc
  behind := (hq.scan_backticks h n).symm

theorem plain_matches {q : Quote} (hq : q.Between) {c : UInt8} (hc : c ≠ backtick)
    (hplain : ¬(q = .outside ∧ IsQuote c)) : (plain c).Matches q before where
  length_states := rfl
  states i hi _ := by
    obtain rfl : i = 0 := Nat.lt_one_iff.mp hi
    rfl
  behind := by
    rcases hq with rfl | rfl
    · obtain ⟨hsingle, hdouble⟩ := not_or.mp fun hquote => hplain ⟨rfl, hquote⟩
      exact (Quote.next_of_plain hsingle hdouble hc .outside before).symm
    · have hc' : c ≠ Text.byte '\x60' := hc
      simp [Token.behind, text, Quote.scan, Quote.next, hc']

/-- A literal matches if it is read to the end of its content and no further. -/
theorem quoted_matches (hquote : IsQuote quote) {closed : Bool}
    (hinside : ∀ i, (ofQuote quote).scan (quote :: before) (content.take i) = ofQuote quote)
    (hend : closed = true → (ofQuote quote).scan (quote :: before) (content ++ [quote]) = .outside) :
    (quoted quote content closed).Matches .outside before where
  length_states := by cases closed <;> simp [Token.states, text]
  states i hi _ := by
    cases i with
    | zero => rfl
    | succ i =>
      have hlt : i < content.length + closed.toNat := by
        cases closed <;> simpa [text] using hi
      have hle : i ≤ content.length := by
        have hbit := closed.toNat_le
        omega
      rw [Token.states, List.getElem?_cons_succ, List.getElem?_replicate_of_lt hlt, text,
        List.cons_append, List.take_succ_cons, List.take_append_of_le_length hle, Quote.scan,
        Quote.outside_next_quote hquote, hinside]
  behind := by
    rw [Token.behind, text, List.cons_append, Quote.scan, Quote.outside_next_quote hquote]
    cases closed with
    | true => exact (hend rfl).symm
    | false =>
      have hall := hinside content.length
      rw [List.take_length] at hall
      rw [if_neg Bool.false_ne_true, if_neg Bool.false_ne_true, List.append_nil, hall]

theorem text_literal (quote : UInt8) (rest : Text) :
    (literal quote rest).1.text ++ (literal quote rest).2 = quote :: rest := by
  rw [literal]
  split
  · rename_i h
    simp [text, eq_of_untilQuote?_eq_some h]
  · simp [text]

theorem replicate_length_takeWhile (t : Text) :
    List.replicate (t.takeWhile (· = backtick)).length backtick = t.takeWhile (· = backtick) := by
  refine (List.eq_replicate_of_mem fun c hc => ?_).symm
  exact of_decide_eq_true (List.all_eq_true.mp List.all_takeWhile c hc)

theorem text_first (q : Quote) (c : UInt8) (rest : Text) :
    (first q c rest).1.text ++ (first q c rest).2 = c :: rest := by
  rw [first]
  split
  · rename_i hc
    rw [text, List.replicate_succ, replicate_length_takeWhile, List.cons_append,
      List.takeWhile_append_dropWhile, hc]
  · split
    · exact text_literal c rest
    · rfl

/-- The token matches and makes ready for the next one. -/
structure Leads (q : Quote) (before : Text) (found : Token × Text) : Prop where
  matches_first : found.1.Matches q before
  ready : Ready (found.1.behind q) (found.1.text.reverse ++ before) found.2

theorem literal_leads {quote : UInt8} (hquote : IsQuote quote) (before rest : Text) :
    Leads .outside before (literal quote rest) := by
  have htick : quote ≠ backtick := by
    rcases hquote with rfl | rfl <;> decide
  rw [literal]
  split
  · rename_i content rest' h
    obtain ⟨hinside, hend⟩ := scan_of_untilQuote?_eq_some before hquote h
    refine ⟨quoted_matches hquote hinside fun _ => hend, fun _ => .inl rfl, fun _ => ?_⟩
    simpa [text] using htick
  · rename_i h
    have hinside := scan_of_untilQuote?_eq_none before hquote h
    refine ⟨quoted_matches hquote hinside ?_, fun hne => absurd rfl hne, ?_⟩
    · intro hclosed
      cases hclosed
    · intro hhead
      cases hhead

/-- The run is taken to its end, so none of its backticks are left for the next token. -/
theorem backticks_leads {q : Quote} {before : Text} (hq : q.Between)
    (h : before.head? ≠ some backtick) (n : Nat) (rest : Text) :
    Leads q before (backticks n, rest.dropWhile (· = backtick)) := by
  refine ⟨backticks_matches hq h n, fun _ => hq.iterate _, fun hhead => ?_⟩
  have hstop := List.head?_dropWhile_not (fun c : UInt8 => decide (c = backtick)) rest
  rw [hhead] at hstop
  simp at hstop

theorem first_leads {q : Quote} {before rest : Text} {c : UInt8} (h : Ready q before (c :: rest)) :
    Leads q before (first q c rest) := by
  have hq : q.Between := h.between (List.cons_ne_nil c rest)
  rw [first]
  split
  · rename_i hc
    subst hc
    exact backticks_leads hq (h.fresh rfl) _ rest
  · rename_i hc
    split
    · rename_i hopen
      obtain ⟨rfl, hquote⟩ := hopen
      exact literal_leads hquote before rest
    · rename_i hplain
      refine ⟨plain_matches hq hc hplain, fun _ => hq, fun _ => ?_⟩
      simpa [text] using hc

end Token

theorem text_tokens (q : Quote) (t : Text) : (tokens q t).flatMap Token.text = t := by
  fun_induction tokens q t with
  | case1 q => rfl
  | case2 q c rest ih => rw [List.flatMap_cons, ih, Token.text_first]

/-- The list holds the state in front of each byte of `t` and the one behind, when `t` is met behind
`before` in state `q`. What it says about backticks is left open. -/
def Tells (q : Quote) (before t : Text) (states : List Quote) : Prop :=
  ∀ i ≤ t.length, t[i]? ≠ some backtick → states[i]? = some (q.scan before (t.take i))

theorem tells_nil (q : Quote) (before : Text) : Tells q before [] [q] := by
  intro i hi _
  obtain rfl : i = 0 := Nat.le_zero.mp hi
  rfl

theorem Token.Matches.tells_append {q : Quote} {before rest : Text} {token : Token}
    {states : List Quote} (h : token.Matches q before)
    (hrest : Tells (token.behind q) (token.text.reverse ++ before) rest states) :
    Tells q before (token.text ++ rest) (token.states q ++ states) := by
  intro i hi hc
  by_cases hlt : i < token.text.length
  · have hlt' : i < (token.states q).length := by rwa [h.length_states]
    rw [List.getElem?_append_left hlt] at hc
    rw [List.getElem?_append_left hlt', List.take_append_of_le_length (Nat.le_of_lt hlt)]
    exact h.states i hlt hc
  · have hle : token.text.length ≤ i := Nat.le_of_not_lt hlt
    have hle' : (token.states q).length ≤ i := by rwa [h.length_states]
    rw [List.getElem?_append_right hle] at hc
    rw [List.length_append] at hi
    have hstate := hrest (i - token.text.length) (by omega) hc
    rw [List.getElem?_append_right hle', h.length_states, List.take_append,
      List.take_of_length_le hle, Quote.scan_append, ← h.behind]
    exact hstate

theorem tells_statesOf_tokens {q : Quote} {before t : Text} (h : Ready q before t) :
    Tells q before t (statesOf q (tokens q t)) := by
  fun_induction tokens q t generalizing before with
  | case1 q => exact tells_nil q before
  | case2 q c rest ih =>
    obtain ⟨hfirst, hready⟩ := Token.first_leads h
    rw [statesOf, ← Token.text_first q c rest]
    exact hfirst.tells_append (ih hready)

/-- The tokens of a text make up the text, and the state in front of each byte that is no backtick, and
at the end, is the one that they tell. -/
theorem statesOf_tokens (t : Text) :
    (tokens .outside t).flatMap Token.text = t ∧
    ∀ i ≤ t.length, t[i]? ≠ some backtick →
      (statesOf .outside (tokens .outside t))[i]? = some (stateAt t i) := by
  have hready : Ready .outside [] t := ⟨fun _ => .inl rfl, fun _ => nofun⟩
  exact ⟨text_tokens .outside t, tells_statesOf_tokens hready⟩

/-- A literal with an escaped quote and two backticks, a run of four and a run of three of them. -/
def fences : Text := .ascii "'\\'\x60\x60'\x60\x60\x60\x60;\x60\x60\x60;'"

/-- The run of four is open for no byte, and the run of three opens a literal that hides the quote. -/
theorem statesOf_tokens_fences :
    10 ≤ fences.length ∧ fences[10]? ≠ some backtick ∧
    (statesOf .outside (tokens .outside fences))[10]? = some .outside ∧
    fences.length ≤ fences.length ∧ fences[fences.length]? ≠ some backtick ∧
    (statesOf .outside (tokens .outside fences))[fences.length]? = some .multiline := by
  have hplace : 10 ≤ fences.length := by decide
  have hc : fences[10]? ≠ some backtick := by decide
  have hend : fences[fences.length]? ≠ some backtick := by decide
  have hstate : stateAt fences 10 = .outside := by decide
  have hlast : stateAt fences fences.length = .multiline := by decide
  obtain ⟨-, htells⟩ := statesOf_tokens fences
  exact ⟨hplace, hc, hstate ▸ htells 10 hplace hc, Nat.le_refl _, hend,
    hlast ▸ htells fences.length (Nat.le_refl _) hend⟩

/-- The backtick in the first literal is no run, and the second literal is never closed. -/
example : tokens .outside (.ascii "a'\x60\\'b'\x60\x60\x60\x60'") =
    [.plain (Text.byte 'a'), .quoted (Text.byte '\'') (.ascii "\x60\\'b") true, .backticks 4,
      .quoted (Text.byte '\'') [] false] := by cbv

end ScriptVet.Kql
