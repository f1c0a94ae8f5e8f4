import ScriptVet.Config
import ScriptVet.Proofs.Run.Law
import ScriptVet.Proofs.Text.Numeral

namespace ScriptVet

theorem Level.ofName?_tag (level : Level) : ofName? level.tag = some level := by
  cases level <;> decide

/-- The case of the letters does not count, and an unknown name stands for `info`. -/
theorem Level.getD_ofName?_eq {t : Text} {level : Level} :
    (ofName? t).getD .info = level ↔
      t.lower = level.tag ∨ level = .warn ∧ t.lower = .ascii "warning" ∨
        level = .info ∧ t.lower ∉ [Text.ascii "debug", .ascii "info", .ascii "warn",
          .ascii "warning", .ascii "error"] := by
  have hdistinct : [Text.ascii "debug", .ascii "info", .ascii "warn", .ascii "warning",
      .ascii "error"].Nodup := by decide
  rw [ofName?]
  generalize t.lower = lower
  cases level <;> grind [tag]

/-- Numbers are converted from the numerals with which they are written. -/
structure Numerals.Lawful (numerals : Numerals) : Prop where
  word : ∀ n : UInt32, numerals.word? (.decimal n.toNat) = some n
  size : ∀ n : UInt64, numerals.size? (.decimal n.toNat) = some n

theorem Numerals.plain_lawful : plain.Lawful where
  word n := by
    have hn : n.toNat < UInt32.size := n.toNat_lt
    simp [plain, Text.natural?_decimal, hn]
  size n := by
    have hn : n.toNat < UInt64.size := n.toNat_lt
    simp [plain, Text.natural?_decimal, hn]

namespace Config

/-- The value to which the scalar at a node is converted, or another one if there is no scalar or it
cannot be converted. -/
def valueOf {α : Type} (convert? : Text → Option α) (fallback : α) (node : Option Document) : α :=
  ((node.bind Document.scalar?).bind convert?).getD fallback

/-- The configuration that the nodes at the keys make. -/
def ofNodes (numerals : Numerals) (nodes : Key → Option Document) : Config where
  level := valueOf Level.ofName? default.level (nodes .logLevel)
  logPath := valueOf some default.logPath (nodes .logPath)
  limits :=
    { workerThreads := valueOf numerals.word? default.limits.workerThreads (nodes .workerThreads)
      maxScriptBytes := valueOf numerals.size? default.limits.maxScriptBytes (nodes .maxScriptBytes)
      logSqlPrefix := valueOf numerals.size? default.limits.logSqlPrefix (nodes .logSqlPrefix) }

/-- What the nodes at the keys say, before it is checked. -/
def draftOf (numerals : Numerals) (nodes : Key → Option Document) : Draft where
  levelName := valueOf some default.level.tag (nodes .logLevel)
  logPath := (ofNodes numerals nodes).logPath
  limits := (ofNodes numerals nodes).limits

section Reading

variable {numerals : Numerals} {d : Document} {key : Key}

theorem lookUp_ok {node : Option Document} (h : d.node? key = .ok node) :
    lookUp d key = pure node := by
  rw [lookUp, h]

theorem lookUp_error {what : Text} (h : d.node? key = .error what) :
    lookUp d key = ⟨[], .broken what⟩ := by
  rw [lookUp, h]

theorem lookUp_eq_done {node : Option Document} :
    (lookUp d key).outcome = .done node ↔ d.node? key = .ok node := by
  cases h : d.node? key with
  | ok node' => simp [lookUp_ok h, Run.pure_eq]
  | error what => simp [lookUp_error h]

/-- What is done has looked its node up. -/
theorem bind_lookUp_eq_done {α : Type} {f : Option Document → Run α} {g : Option Document → α}
    (hf : ∀ node, (f node).outcome = .done (g node)) {a : α} :
    (lookUp d key >>= f).outcome = .done a ↔ ∃ node, d.node? key = .ok node ∧ g node = a := by
  simp only [Run.bind_eq_done, lookUp_eq_done, hf, Outcome.done.injEq]

theorem readText_eq_done {fallback t : Text} :
    (readText d key fallback).outcome = .done t ↔
      ∃ node, d.node? key = .ok node ∧ valueOf some fallback node = t := by
  apply bind_lookUp_eq_done
  intro node
  rw [valueOf, Option.bind_fun_some]
  rfl

theorem readNumber_eq_done {α : Type} {convert? : Text → Option α} {value : α → Nat}
    {fallback n : α} :
    (readNumber convert? value d key fallback).outcome = .done n ↔
      ∃ node, d.node? key = .ok node ∧ valueOf convert? fallback node = n := by
  apply bind_lookUp_eq_done
  intro node
  rw [valueOf]
  cases node.bind Document.scalar? with
  | none => rfl
  | some t =>
    change (asNumber convert? value key fallback t).outcome = .done ((convert? t).getD fallback)
    rw [asNumber]
    cases convert? t <;> rfl

theorem readDraft_eq_done {draft : Draft} :
    (readDraft numerals d).outcome = .done draft ↔
      ∃ nodes, (∀ key, d.node? key = .ok (nodes key)) ∧ draftOf numerals nodes = draft := by
  simp only [readDraft, readLimits, Run.bind_eq_done, readText_eq_done, readNumber_eq_done]
  constructor
  · rintro ⟨_, ⟨level, hlevel, rfl⟩, _, ⟨path, hpath, rfl⟩, _,
      ⟨_, ⟨workers, hworkers, rfl⟩, _, ⟨bytes, hbytes, rfl⟩, _, ⟨shown, hshown, rfl⟩, hlimits⟩, hdraft⟩
    have hall (key : Key) : ∃ node, d.node? key = .ok node := by
      cases key with
      | logLevel => exact ⟨level, hlevel⟩
      | logPath => exact ⟨path, hpath⟩
      | workerThreads => exact ⟨workers, hworkers⟩
      | maxScriptBytes => exact ⟨bytes, hbytes⟩
      | logSqlPrefix => exact ⟨shown, hshown⟩
    choose nodes hnodes using hall
    have hsame {key : Key} {node : Option Document} (h : d.node? key = .ok node) :
        node = nodes key := Except.ok.inj (h.symm.trans (hnodes key))
    obtain rfl := Outcome.done.inj hlimits
    refine ⟨nodes, hnodes, ?_⟩
    rw [hsame hlevel, hsame hpath, hsame hworkers, hsame hbytes, hsame hshown] at hdraft
    exact Outcome.done.inj hdraft
  · rintro ⟨nodes, hnodes, rfl⟩
    exact ⟨_, ⟨_, hnodes _, rfl⟩, _, ⟨_, hnodes _, rfl⟩, _,
      ⟨_, ⟨_, hnodes _, rfl⟩, _, ⟨_, hnodes _, rfl⟩, _, ⟨_, hnodes _, rfl⟩, rfl⟩, rfl⟩

end Reading

section Loading

variable {numerals : Numerals} {source : Text} {d : Document}

/-- The run is done, or one of the keys breaks it. -/
def Searched {α : Type} (d : Document) (r : Run α) : Prop :=
  (∃ value, r.outcome = .done value) ∨
    ∃ key what, d.node? key = .error what ∧ r.outcome = .broken what

theorem law_searched (d : Document) : Run.Law fun r => Searched d r where
  pure value := .inl ⟨value, rfl⟩
  note _ _ := .inl ⟨(), rfl⟩
  bind {_ _ r f} hr hf := by
    rcases hr with ⟨value, hvalue⟩ | ⟨key, what, hkey, hbroken⟩
    · rw [Searched, Run.bind_done hvalue]
      exact hf value hvalue
    · rw [Searched, Run.bind_broken hbroken]
      exact .inr ⟨key, what, hkey, rfl⟩

theorem searched_lookUp (d : Document) (key : Key) : Searched d (lookUp d key) := by
  cases h : d.node? key with
  | ok node => exact .inl ⟨node, lookUp_eq_done.mpr h⟩
  | error what => exact .inr ⟨key, what, h, by rw [lookUp_error h]⟩

theorem searched_readText (d : Document) (key : Key) (fallback : Text) :
    Searched d (readText d key fallback) :=
  have law := law_searched d
  law.bind (searched_lookUp d key) fun _ _ => law.pure _

theorem searched_readNumber {α : Type} (convert? : Text → Option α) (value : α → Nat) (d : Document)
    (key : Key) (fallback : α) : Searched d (readNumber convert? value d key fallback) := by
  have law := law_searched d
  refine law.bind (searched_lookUp d key) fun node _ => ?_
  split
  · exact law.pure fallback
  rw [asNumber]
  split
  · exact law.pure _
  · exact law.bind (law.note _ _) fun _ _ => law.pure fallback

theorem searched_readDraft (numerals : Numerals) (d : Document) :
    Searched d (readDraft numerals d) := by
  have law := law_searched d
  have hlimits : Searched d (readLimits numerals d) :=
    law.bind (searched_readNumber _ _ d _ _) fun _ _ =>
      law.bind (searched_readNumber _ _ d _ _) fun _ _ =>
        law.bind (searched_readNumber _ _ d _ _) fun _ _ => law.pure _
  exact law.bind (searched_readText d _ _) fun _ _ =>
    law.bind (searched_readText d _ _) fun _ _ => law.bind hlimits fun _ _ => law.pure _

theorem readLevel_outcome (name : Text) :
    (readLevel name).outcome = .done ((Level.ofName? name).getD .info) := by
  rw [readLevel]
  cases Level.ofName? name <;> rfl

/-- The name of the default is put in for a missing one and read as the default. -/
theorem level_valueOf (node : Option Document) :
    (Level.ofName? (valueOf some default.level.tag node)).getD .info =
      valueOf Level.ofName? default.level node := by
  rw [valueOf, valueOf]
  cases node.bind Document.scalar? with
  | none => exact congrArg (·.getD .info) (Level.ofName?_tag default.level)
  | some t => rfl

/-- What loading a document can answer. -/
inductive Answers (numerals : Numerals) (source : Text) (d : Document) :
    Except Problem Config → Prop
  | notMap : d.isMap = false → Answers numerals source d (.error (.notMap source))
  | unsearchable {key : Key} {what : Text} : d.node? key = .error what →
    Answers numerals source d (.error (.unsearchable source what.untilNul))
  | noWorkers {nodes : Key → Option Document} : (∀ key, d.node? key = .ok (nodes key)) →
    (ofNodes numerals nodes).limits.workerThreads = 0 →
    Answers numerals source d (.error (.noWorkers source))
  | config {nodes : Key → Option Document} : d.isMap = true →
    (∀ key, d.node? key = .ok (nodes key)) → (ofNodes numerals nodes).limits.workerThreads ≠ 0 →
    Answers numerals source d (.ok (ofNodes numerals nodes))

theorem ofDraft_outcome (source : Text) (draft : Draft) :
    (ofDraft source draft).outcome = .done
      (if draft.limits.workerThreads = 0 then .error (.noWorkers source)
      else .ok ⟨(Level.ofName? draft.levelName).getD .info, draft.logPath, draft.limits⟩) := by
  rw [ofDraft]
  split
  · rfl
  · rw [Run.bind_done (readLevel_outcome _)]
    rfl

theorem ofDocument_answers (numerals : Numerals) (source : Text) (d : Document) :
    ∃ answer, (ofDocument numerals source d).outcome = .done answer ∧
      Answers numerals source d answer := by
  rw [ofDocument]
  by_cases hmap : d.isMap = true
  · rw [if_pos hmap]
    rcases searched_readDraft numerals d with ⟨draft, hdraft⟩ | ⟨key, what, hkey, hbroken⟩
    · obtain ⟨nodes, hnodes, rfl⟩ := readDraft_eq_done.mp hdraft
      have hrun : (readDraft numerals d >>= ofDraft source).outcome = .done
          (if (ofNodes numerals nodes).limits.workerThreads = 0 then .error (.noWorkers source)
          else .ok (ofNodes numerals nodes)) := by
        rw [Run.bind_done hdraft, ofDraft_outcome, draftOf, level_valueOf]
        rfl
      rw [Run.recover_done hrun, hrun]
      by_cases hzero : (ofNodes numerals nodes).limits.workerThreads = 0
      · exact ⟨_, congrArg _ (if_pos hzero), .noWorkers hnodes hzero⟩
      · exact ⟨_, congrArg _ (if_neg hzero), .config hmap hnodes hzero⟩
    · have hrun := Run.bind_broken hbroken (ofDraft source)
      rw [Run.recover_broken (congrArg Run.outcome hrun)]
      exact ⟨_, rfl, .unsearchable hkey⟩
  · rw [if_neg hmap]
    exact ⟨_, rfl, .notMap (Bool.not_eq_true _ ▸ hmap)⟩

/-- The ways to load what was read: from a text, and from a file that is there. -/
inductive Loads (numerals : Numerals) (read : Except Document.Fault Document) :
    Run (Except Problem Config) → Prop
  | text : Loads numerals read (ofText read numerals)
  | file (files : FileSystem) (path target : Text) : files.resolve path = .ok target →
    Loads numerals read (ofFile files path read numerals)

variable {run : Run (Except Problem Config)}

theorem Loads.fails {fault : Document.Fault} (h : Loads numerals (.error fault) run) :
    ∃ p, run.outcome = .done (.error p) := by
  cases h with
  | text => exact ⟨_, rfl⟩
  | file files path target htarget =>
    rw [ofFile, htarget]
    exact ⟨_, rfl⟩

/-- From a file, only a note that it is read comes in front. -/
theorem Loads.exists_source (h : Loads numerals (.ok d) run) :
    ∃ source, run.outcome = (ofDocument numerals source d).outcome ∧
      ∀ event ∈ run.events,
        event ∈ (ofDocument numerals source d).events ∨ ∃ t, event = .note .info t := by
  cases h with
  | text => exact ⟨_, rfl, fun event hevent => .inl hevent⟩
  | file files path target htarget =>
    rw [ofFile, htarget]
    refine ⟨target, rfl, ?_⟩
    intro event hevent
    rcases List.mem_cons.mp hevent with rfl | hevent
    · exact .inr ⟨_, rfl⟩
    · exact .inl hevent

theorem Loads.exists_answer (h : Loads numerals (.ok d) run) :
    ∃ source answer, run.outcome = .done answer ∧ Answers numerals source d answer := by
  obtain ⟨source, hsource, -⟩ := h.exists_source
  obtain ⟨answer, hanswer, hanswers⟩ := ofDocument_answers numerals source d
  exact ⟨source, answer, hsource.trans hanswer, hanswers⟩

theorem Answers.eq_ofNodes {c : Config} (h : Answers numerals source d (.ok c)) :
    ∃ nodes, d.isMap = true ∧ (∀ key, d.node? key = .ok (nodes key)) ∧
      c.limits.workerThreads ≠ 0 ∧ c = ofNodes numerals nodes := by
  cases h with
  | @config nodes hmap hnodes hworkers => exact ⟨nodes, hmap, hnodes, hworkers, rfl⟩

/-- There is no configuration just if the document is no map, cannot be searched for one of the keys,
or asks for no workers. -/
theorem Answers.error_iff {answer : Except Problem Config} (h : Answers numerals source d answer) :
    (∃ p, answer = .error p) ↔
      d.isMap = false ∨ (∃ key what, d.node? key = .error what) ∨
        ∃ node, d.node? .workerThreads = .ok node ∧
          valueOf numerals.word? default.limits.workerThreads node = 0 := by
  cases h with
  | notMap hmap => exact iff_of_true ⟨_, rfl⟩ (.inl hmap)
  | unsearchable hkey => exact iff_of_true ⟨_, rfl⟩ (.inr (.inl ⟨_, _, hkey⟩))
  | noWorkers hnodes hworkers =>
    exact iff_of_true ⟨_, rfl⟩ (.inr (.inr ⟨_, hnodes .workerThreads, hworkers⟩))
  | config hmap hnodes hworkers =>
    apply iff_of_false
    · rintro ⟨p, hp⟩
      cases hp
    · rintro (hmap' | ⟨key, what, hkey⟩ | ⟨node, hnode, hzero⟩)
      · rw [hmap] at hmap'
        cases hmap'
      · cases (hnodes key).symm.trans hkey
      · obtain rfl := Except.ok.inj ((hnodes .workerThreads).symm.trans hnode)
        exact hworkers hzero

end Loading

section Saved

variable {numerals : Numerals} {d : Document} {c : Config}

theorem isMap_of_node?_eq_some {key : Key} {node : Document} (h : d.node? key = .ok (some node)) :
    d.isMap = true := by
  cases d with
  | map entries => rfl
  | torn entries what => rfl
  | null => cases h
  | scalar t => cases h
  | sequence => cases h

theorem readText_scalar {key : Key} {t : Text} (h : d.node? key = .ok (some (.scalar t)))
    (fallback : Text) : readText d key fallback = pure t := by
  rw [readText, lookUp_ok h]
  rfl

theorem readNumber_scalar {α : Type} {convert? : Text → Option α} {key : Key} {t : Text} {n : α}
    (h : d.node? key = .ok (some (.scalar t))) (hn : convert? t = some n) (value : α → Nat)
    (fallback : α) : readNumber convert? value d key fallback = pure n := by
  rw [readNumber, lookUp_ok h, pure_bind]
  change asNumber convert? value key fallback t = pure n
  rw [asNumber, hn]

/-- A document holds a configuration if it has its values at the keys, however it is arranged. -/
def Holds (d : Document) (c : Config) : Prop :=
  ∀ key, d.node? key = .ok (some (.scalar (c.text key)))

theorem holds_toDocument (c : Config) : Holds c.toDocument c := by
  intro key
  cases key <;> rfl

theorem readDraft_of_holds (lawful : numerals.Lawful) (h : Holds d c) :
    readDraft numerals d = pure ⟨c.level.tag, c.logPath, c.limits⟩ := by
  have hlimits : readLimits numerals d = pure c.limits := by
    rw [readLimits, readNumber_scalar (h .workerThreads) (lawful.word _), pure_bind,
      readNumber_scalar (h .maxScriptBytes) (lawful.size _), pure_bind,
      readNumber_scalar (h .logSqlPrefix) (lawful.size _), pure_bind]
  rw [readDraft, readText_scalar (h .logLevel), pure_bind, readText_scalar (h .logPath), pure_bind,
    hlimits, pure_bind]
  rfl

/-- What was loaded is loaded again, and nothing is found fault with. -/
theorem ofDocument_of_holds (lawful : numerals.Lawful) (h : Holds d c)
    (hworkers : c.limits.workerThreads ≠ 0) (source : Text) :
    ofDocument numerals source d = ⟨[.note .info (loaded c)], .done (.ok c)⟩ := by
  have hlevel : readLevel c.level.tag = pure c.level := by
    rw [readLevel, Level.ofName?_tag]
  rw [ofDocument, if_pos (isMap_of_node?_eq_some (h .logLevel)), readDraft_of_holds lawful h,
    pure_bind, ofDraft, if_neg hworkers, hlevel, pure_bind]
  rfl

end Saved

section Loaded

variable {numerals : Numerals} {d : Document} {run : Run (Except Problem Config)}

/-- Two configurations have the same value at a key. -/
def SameAt (c c' : Config) : Key → Prop
  | .logLevel => c.level = c'.level
  | .logPath => c.logPath = c'.logPath
  | .workerThreads => c.limits.workerThreads = c'.limits.workerThreads
  | .maxScriptBytes => c.limits.maxScriptBytes = c'.limits.maxScriptBytes
  | .logSqlPrefix => c.limits.logSqlPrefix = c'.limits.logSqlPrefix

/-- A node makes the value at its key and no other. -/
theorem ofNodes_sameAt {nodes nodes' : Key → Option Document} {key : Key}
    (h : nodes key = nodes' key) : (ofNodes numerals nodes).SameAt (ofNodes numerals nodes') key := by
  cases key with
  | logLevel => exact congrArg (valueOf Level.ofName? _) h
  | logPath => exact congrArg (valueOf some _) h
  | workerThreads => exact congrArg (valueOf numerals.word? _) h
  | maxScriptBytes => exact congrArg (valueOf numerals.size? _) h
  | logSqlPrefix => exact congrArg (valueOf numerals.size? _) h

/-- A scalar can be taken as a value at the key. -/
def Suits (numerals : Numerals) (t : Text) : Key → Prop
  | .logLevel => ∃ level, Level.ofName? t = some level
  | .logPath => True
  | .workerThreads => ∃ n, numerals.word? t = some n
  | .maxScriptBytes => ∃ n, numerals.size? t = some n
  | .logSqlPrefix => ∃ n, numerals.size? t = some n

theorem bind_scalar?_eq_some {node : Option Document} {t : Text} :
    node.bind Document.scalar? = some t ↔ node = some (.scalar t) := by
  rcases node with _ | node
  · simp
  · cases node <;> simp [Document.scalar?]

theorem valueOf_eq_fallback {α : Type} {convert? : Text → Option α} {node : Option Document}
    (h : ∀ t, node = some (.scalar t) → ¬∃ a, convert? t = some a) (fallback : α) :
    valueOf convert? fallback node = fallback := by
  rw [valueOf]
  cases hnode : node.bind Document.scalar? with
  | none => rfl
  | some t =>
    have ht : convert? t = none :=
      Option.eq_none_iff_forall_ne_some.mpr (not_exists.mp (h t (bind_scalar?_eq_some.mp hnode)))
    rw [Option.bind_some, ht]
    rfl

/-- Where there is nothing to take, the default is taken. -/
theorem ofNodes_sameAt_default {nodes : Key → Option Document} {key : Key}
    (h : ∀ t, nodes key = some (.scalar t) → ¬Suits numerals t key) :
    (ofNodes numerals nodes).SameAt default key := by
  cases key with
  | logLevel => exact valueOf_eq_fallback h _
  | logPath => exact valueOf_eq_fallback (fun t ht => absurd trivial (h t ht)) _
  | workerThreads => exact valueOf_eq_fallback h _
  | maxScriptBytes => exact valueOf_eq_fallback h _
  | logSqlPrefix => exact valueOf_eq_fallback h _

/-- What is known of a configuration that was loaded from a document. -/
structure Loaded (numerals : Numerals) (d : Document) (c : Config) : Prop where
  workers : 1 ≤ c.limits.workerThreads
  levels : c.level.tag ∈ [Text.ascii "debug", .ascii "info", .ascii "warn", .ascii "error"]
  /-- The nodes at the keys make the configuration. -/
  nodes : ∃ nodes, (∀ key, d.node? key = .ok (nodes key)) ∧ c = ofNodes numerals nodes
  defaults : ∀ key node, d.node? key = .ok node →
    (∀ t, node = some (.scalar t) → ¬Suits numerals t key) → c.SameAt default key
  /-- The case of the letters of a level does not count. -/
  level : ∀ t, d.node? .logLevel = .ok (some (.scalar t)) → ∀ level, c.level = level ↔
    t.lower = level.tag ∨ level = .warn ∧ t.lower = .ascii "warning" ∨
      level = .info ∧ t.lower ∉ [Text.ascii "debug", .ascii "info", .ascii "warn",
        .ascii "warning", .ascii "error"]
  /-- Whatever else is in another document, the same node makes the same value. -/
  independent : ∀ d' run' c', Loads numerals (.ok d') run' → run'.outcome = .done (.ok c') →
    ∀ key, d'.node? key = d.node? key → c'.SameAt c key
  document : Holds c.toDocument c
  /-- The values that were loaded are loaded again, without a warning. -/
  again : ∀ d' run', Holds d' c → Loads numerals (.ok d') run' →
    run'.outcome = .done (.ok c) ∧ ∀ level t, .note level t ∈ run'.events → level = .info

theorem loaded_of_ofNodes (lawful : numerals.Lawful) {nodes : Key → Option Document}
    (hnodes : ∀ key, d.node? key = .ok (nodes key))
    (hworkers : (ofNodes numerals nodes).limits.workerThreads ≠ 0) :
    Loaded numerals d (ofNodes numerals nodes) where
  workers := by
    rw [UInt32.le_iff_toNat_le]
    exact Nat.pos_of_ne_zero fun hzero => hworkers (UInt32.toNat_inj.mp hzero)
  levels := by
    cases (ofNodes numerals nodes).level <;> simp [Level.tag]
  nodes := ⟨nodes, hnodes, rfl⟩
  defaults := by
    intro key node hnode h
    obtain rfl := Except.ok.inj ((hnodes key).symm.trans hnode)
    exact ofNodes_sameAt_default h
  level := by
    intro t ht level
    have hnode : nodes .logLevel = some (.scalar t) :=
      Except.ok.inj ((hnodes .logLevel).symm.trans ht)
    rw [ofNodes, hnode]
    exact Level.getD_ofName?_eq
  independent := by
    intro d' run' c' hloads hdone key hkey
    obtain ⟨source, answer, hanswer, hanswers⟩ := hloads.exists_answer
    obtain rfl := Outcome.done.inj (hanswer.symm.trans hdone)
    obtain ⟨nodes', -, hnodes', -, rfl⟩ := hanswers.eq_ofNodes
    rw [hnodes key, hnodes' key] at hkey
    exact ofNodes_sameAt (Except.ok.inj hkey)
  document := holds_toDocument _
  again := by
    intro d' run' hholds hloads
    obtain ⟨source, houtcome, hevents⟩ := hloads.exists_source
    rw [ofDocument_of_holds lawful hholds hworkers] at houtcome hevents
    refine ⟨houtcome, ?_⟩
    intro level t hnote
    rcases hevents _ hnote with hloaded | ⟨t', ht'⟩
    · exact (Event.note.inj (List.mem_singleton.mp hloaded)).1
    · exact (Event.note.inj ht').1

/-- Loading always ends, and fails just if the document cannot be read, is no map, cannot be searched
for a key or asks for no workers. The configuration is otherwise made of the nodes at the five keys,
each of which makes its own value and no other, and it can be loaded again from any document that
holds its values. -/
theorem load_all_or_nothing (lawful : numerals.Lawful) {read : Except Document.Fault Document}
    (h : Loads numerals read run) :
    (∃ answer, run.outcome = .done answer) ∧
    ((∃ p, run.outcome = .done (.error p)) ↔
      (∃ fault, read = .error fault) ∨
      ∃ d, read = .ok d ∧ (d.isMap = false ∨ (∃ key what, d.node? key = .error what) ∨
        ∃ node, d.node? .workerThreads = .ok node ∧
          valueOf numerals.word? default.limits.workerThreads node = 0)) ∧
    ∀ c, run.outcome = .done (.ok c) → ∃ d, read = .ok d ∧ Loaded numerals d c := by
  cases read with
  | error fault =>
    obtain ⟨p, hp⟩ := h.fails
    refine ⟨⟨_, hp⟩, iff_of_true ⟨p, hp⟩ (.inl ⟨fault, rfl⟩), ?_⟩
    intro c hc
    cases hp.symm.trans hc
  | ok d =>
    obtain ⟨source, answer, hanswer, hanswers⟩ := h.exists_answer
    refine ⟨⟨answer, hanswer⟩, ?_, ?_⟩
    · rw [hanswer]
      simp only [Outcome.done.injEq, hanswers.error_iff, reduceCtorEq, exists_false, false_or,
        Except.ok.injEq, exists_eq_left']
    · intro c hc
      obtain rfl := Outcome.done.inj (hanswer.symm.trans hc)
      obtain ⟨nodes, -, hnodes, hworkers, rfl⟩ := hanswers.eq_ofNodes
      exact ⟨d, rfl, loaded_of_ofNodes lawful hnodes hworkers⟩

/-- A level in capitals by its second name, a path that is no scalar, a numeral that is none, and keys
that are missing. -/
theorem load_all_or_nothing_warning :
    let d : Document := .map
      [(.ascii "global", .map [(.ascii "log_level", .scalar (.ascii "WARNING")),
        (.ascii "log_path", .sequence)]),
       (.ascii "analyzer", .map [(.ascii "worker_threads", .scalar (.ascii "8")),
        (.ascii "max_script_bytes", .scalar (.ascii "many"))])]
    let c : Config := ⟨.warn, .ascii "/tmp/querygate.log", ⟨8, 1048576, 80⟩⟩
    Numerals.plain.Lawful ∧ Loads .plain (.ok d) (ofText (.ok d)) ∧
    (ofText (.ok d)).outcome = .done (.ok c) ∧ Loaded .plain d c ∧
    (ofText (.ok c.toDocument)).outcome = .done (.ok c) := by
  intro d c
  have hloads : Loads .plain (.ok d) (ofText (.ok d)) := .text
  have hdone : (ofText (.ok d)).outcome = .done (.ok c) := rfl
  obtain ⟨-, -, hloaded⟩ := load_all_or_nothing Numerals.plain_lawful hloads
  obtain ⟨d', hd, hc⟩ := hloaded c hdone
  obtain rfl := Except.ok.inj hd
  exact ⟨Numerals.plain_lawful, hloads, hdone, hc, (hc.again _ _ hc.document .text).1⟩

end Loaded

end Config

end ScriptVet
