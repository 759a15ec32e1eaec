import GraceStore.Proofs.Command.Setting
import GraceStore.Proofs.Number.Decimal96

/-!
# SET with options

SET does what its options ask for, in every reachable state: it fails if they cannot be read or ask for a time to
live that there is not, and sets the key if the condition on it holds. SETNX, SETEX, PSETEX and GETSET leave what SET
leaves with the options that they stand for.
-/

namespace GraceStore

variable {now : UInt64} {key value arg : Bytes} {c c' : Command} {o : SetOptions} {ttl : Option Nat} {r a : Reply}

theorem Item.isDue_eq_false {v : Value} {expiry : Option UInt64} {t : UInt64} (ht : expiry.all (t ≤ ·) = true) :
    Item.isDue ⟨v, expiry⟩ t = false := by
  cases expiry with
  | none => rfl
  | some x => simpa [isDue] using ht

/-! ## What a key is set to -/

namespace Store

variable {s : Store} {id : ObjectId} {a : Object} {expiry : Option UInt64}

/-- A key refers to an object, until it expires. -/
def Stores (s : Store) (key : Bytes) (a : Object) (expiry : Option UInt64) : Prop :=
  ∃ o, s.keyspace.entry? key = some ⟨key, o, expiry⟩ ∧ s.heap.get? o = some a

theorem Stores.reads (h : s.Stores key a expiry) (hadm : ∀ d, a.Admits d) : s.Reads key := by
  obtain ⟨o, he, ha⟩ := h
  intro e he' b hb
  cases he.symm.trans he'
  cases ha.symm.trans hb
  exact hadm _

theorem stores_setKey (key : Bytes) (ha : s.heap.get? id = some a) (hv : s.keyspace.table.Valid s.keyspace.hash) :
    Stores { s with keyspace := s.keyspace.setKey key id } key a none := by
  refine ⟨id, (Keyspace.entry?_install_self hv).trans ?_, ha⟩
  cases s.keyspace.entry? key <;> rfl

theorem Stores.setExpiry (h : s.Stores key a expiry) (hv : s.keyspace.table.Valid s.keyspace.hash) (t : UInt64) :
    Stores { s with keyspace := (s.keyspace.setExpiry key t).2 } key a (some t) := by
  obtain ⟨o, he, ha⟩ := h
  exact ⟨o, (Keyspace.entry?_setExpiry_self hv).trans (by rw [he]; rfl), ha⟩

end Store

namespace Action

open Command

variable {env : Env} {s : Store} {held : ObjectId → Prop}

theorem meets_stores_setCounted : (setCounted key value).Meets held env s fun _ s' =>
    s'.Stores key (.encode value) none := by
  refine Meets.bind (yields_encode_createString value) (fun id s₁ _ ⟨_, _, hx, ha⟩ => ?_)
    fun _ _ ⟨_, _, hx, _⟩ => nomatch hx
  cases hx
  refine Meets.bind_run (run_update _) (advance_install · ⟨_, ha, rfl, admits_encode value _⟩) fun hs => ?_
  obtain ⟨o, he, ho⟩ := Store.stores_setKey key ha hs.valid
  exact Meets.of_run (run_update _) (fun hs => advance_of_turns hs (.of_table rfl rfl rfl rfl rfl)) fun _ => ⟨o, he, ho⟩

theorem Meets.notify {β : Type} {f : Unit → Action β} {R : Except Error β → Store → Prop} {b : Object}
    {expiry : Option UInt64} {kind : EventClass} {name : String} (h : s.Stores key b expiry)
    (hf : ∀ s', s'.Stores key b expiry → (f ()).Meets held env s' R) :
    (update (·.notify kind name key) >>= f).Meets held env s R :=
  Meets.bind_run (run_update _) (fun hs => advance_of_turns hs (.of_table rfl rfl rfl rfl rfl)) fun _ => hf _ h

/-- A command that has set a key has put the string under it. -/
theorem meets_stores_setGeneric [env.Still] : (setGeneric c o key value r a).Meets held env s fun r' s' =>
    ∀ e, r' = .ok e → e.reply ≠ a → ∃ expiry, s'.Stores key (.encode value) expiry := by
  refine Meets.bind (carries_ttl c o.expire) (fun ttl s₁ _ _ => ?_) fun _ _ _ _ he => nomatch he
  refine Meets.bind (carries_conditionHolds o.condition) (fun holds s₂ _ _ => ?_) fun _ _ _ _ he => nomatch he
  cases holds with
  | false =>
      refine Meets.pure fun e he hne => ?_
      cases he
      exact absurd rfl hne
  | true =>
      refine Meets.bind meets_stores_setCounted (fun _ s₃ _ hstores => ?_) fun _ _ _ _ he => nomatch he
      cases ttl with
      | none => exact Meets.notify hstores fun s₄ hstores => Meets.pure fun _ _ _ => ⟨none, hstores⟩
      | some ms =>
          refine Meets.bind_run run_now .refl fun hs => ?_
          refine Meets.bind_run (run_apply _) (fun hs => advance_of_turns hs Keyspace.turns_setExpiry) fun hs => ?_
          exact Meets.notify (hstores.setExpiry hs.valid _) fun s₄ hstores => Meets.notify hstores fun s₅ hstores =>
            Meets.pure fun _ _ _ => ⟨_, hstores⟩

end Action

namespace Request

/-- The words of a SET with options. -/
def setWords (key value : Bytes) (words : List Bytes) : List Bytes := Bytes.ofString "SET" :: key :: value :: words

theorem command?_setWords (key value : Bytes) (words : List Bytes) : command? (setWords key value words) = .ok .set :=
  command?_of_length rfl rfl (by simp)

end Request

/-! ## In reachable states -/

namespace Multistore

open SetOption (Spells Compatible)

variable {m : Multistore} {i : DomainId} {s s' : Store} {e : Executed} {words argv : List Bytes}

theorem Reachable.stores_after_set [Decimals] (h : m.Reachable) (hs : m.store? i = some s)
    (he : (m.run i now (Request.processWrite (Request.setWords key value words))).1 = some (.ok e))
    (hok : e.reply = .ok)
    (hs' : (m.after i now (Request.setWords key value words)).store? i = some s') :
    ∃ expiry, s'.Stores key (.encode value) expiry := by
  have hmeets : (Request.execute .set (key :: value :: words)).Meets (m.held i) (m.env i now) s fun r s' =>
      ∀ e, r = .ok e → e.reply ≠ .null → ∃ expiry, s'.Stores key (.encode value) expiry :=
    Action.Meets.bind (Action.Carries.ofExcept _) (fun _ _ _ _ => Action.meets_stores_setGeneric) fun _ _ _ _ he =>
      nomatch he
  obtain ⟨_, hstores⟩ := hmeets (h.sound.toStore hs) fun _ ho => ho.1
  have hrun : (Request.processWrite (Request.setWords key value words)).run (m.env i now) s = _ :=
    Request.run_reporting _ _
  rw [Multistore.after, run_of_store hs, store?_putStore hs, hrun] at hs'
  rw [run_of_store hs, hrun] at he
  have hexecuted : Request.execute .set (Request.setWords key value words).tail =
      Request.execute .set (key :: value :: words) := rfl
  rw [hexecuted] at he hs'
  generalize (Request.execute .set (key :: value :: words)).run (m.env i now) s = r at he hs' hstores
  obtain ⟨(err | why) | x, t⟩ := r
  · cases Except.ok.inj (Option.some.inj he)
    cases hok
  · cases Option.some.inj he
  · cases Except.ok.inj (Option.some.inj he)
    cases Option.some.inj hs'
    exact hstores _ rfl (hok ▸ Reply.noConfusion)

theorem Reachable.reads_after_set [Decimals] (h : m.Reachable) (hs : m.store? i = some s)
    (he : (m.run i now (Request.processWrite (Request.setWords key value words))).1 = some (.ok e))
    (hok : e.reply = .ok)
    (hs' : (m.after i now (Request.setWords key value words)).store? i = some s') : s'.Reads key := by
  obtain ⟨expiry, hstores⟩ := h.stores_after_set hs he hok hs'
  exact hstores.reads (Action.admits_encode value)

theorem Reachable.get_after_set [Decimals] {expiry : Option UInt64} {t : UInt64} (h : m.Reachable)
    (hs : m.store? i = some s)
    (he : (m.run i now (Request.processWrite (Request.setWords key value words))).1 = some (.ok e))
    (hok : e.reply = .ok) (hs' : (m.after i now (Request.setWords key value words)).store? i = some s')
    (hitem : s'.ledger.items key = some ⟨.string value, expiry⟩) (ht : expiry.all (t ≤ ·) = true) :
    (m.after i now (Request.setWords key value words)).get i t key = some (.ok (.bulk value)) := by
  have hlive : s'.ledger.live t key = some ⟨.string value, expiry⟩ :=
    Contents.live_eq_some.mpr ⟨hitem, Item.isDue_eq_false ht⟩
  have hold : (s'.ledger.live t).string? key = .ok (some value) := by
    simp only [Contents.string?, hlive]
  exact (h.after i now _).get_eq hs' (h.reads_after_set hs he hok hs') hold

/-- What comes of a SET with the options `o` that is answered with `e` and leads from `s` to `s'`: it fails if there
is no such time to live, and else the key is set if the condition on it holds. -/
structure Sets [Decimals] (m : Multistore) (i : DomainId) (now : UInt64) (key value : Bytes) (words : List Bytes)
    (o : SetOptions) (e : Executed) (s s' : Store) : Prop where
  fails_iff : e.reply.isError = true ↔ ¬ ∃ ttl, o.Lasts ttl
  unchanged : e.reply.isError = true → s'.ledger = s.ledger
  set : ∀ ttl, o.Lasts ttl → o.condition.Holds (s.ledger.live now key) → e.reply = .ok ∧
    ∃ expiry : Option UInt64, expiry.map UInt64.toNat = ttl.map (fun ms => min (now.toNat + ms) (2 ^ 64 - 1)) ∧
      s'.ledger.live now = (s.ledger.live now).set key (some ⟨.string value, expiry⟩) ∧
      ∀ t, expiry.all (t ≤ ·) = true →
        (m.after i now (Request.setWords key value words)).get i t key = some (.ok (.bulk value))
  refused : ∀ ttl, o.Lasts ttl → ¬ o.condition.Holds (s.ledger.live now key) → e.reply = .null ∧
    ∃ due, Ledger.Purged now s.ledger s'.ledger due ∧ ∀ k ∈ due, k = key

theorem script_setWords [Decimals] (key value : Bytes) (hwords : SetOptions.ofWords words = .ok o) :
    Script.ofCommand .set (Request.setWords key value words).tail = Script.setGeneric .set o key value .ok .null := by
  show (Script.ofExcept (SetOptions.ofWords words) >>= fun _ => _) = _
  rw [hwords]
  rfl

theorem Reachable.sets [Decimals] [Decimals.Lawful] (h : m.Reachable) (hs : m.store? i = some s) (now : UInt64)
    (key value : Bytes) (hwords : SetOptions.ofWords words = .ok o) :
    ∃ e s', (m.run i now (Request.processWrite (Request.setWords key value words))).1 = some (.ok e) ∧
      (m.after i now (Request.setWords key value words)).store? i = some s' ∧
      e.reply ≠ .ofError .badSyntax ∧ m.Sets i now key value words o e s s' := by
  have hc := Request.command?_setWords key value words
  have hscript := script_setWords key value hwords
  obtain ⟨due, hpurged, hdue⟩ := s.ledger.purged_looks now (o.condition.looks key)
  by_cases hlasts : ∃ ttl, o.Lasts ttl
  · obtain ⟨ttl, hlasts⟩ := hlasts
    have hrun : (Script.ofCommand .set (Request.setWords key value words).tail).run now s.ledger = _ :=
      hscript ▸ Script.run_setGeneric hlasts
    have hsome : ∃ ttl, o.Lasts ttl := ⟨ttl, hlasts⟩
    by_cases hholds : o.condition.Holds (s.ledger.live now key)
    · rw [if_pos hholds] at hrun
      obtain ⟨e, s', he, hok, hs', hl⟩ := h.answered_blind hs now hc rfl hrun
      have hreply : e.reply = .ok := hok
      refine ⟨e, s', he, hs', by rw [hreply]; exact nofun, ⟨?_, ?_, fun ttl' hlasts' _ => ?_, ?_⟩⟩
      · exact iff_of_false (by rw [hreply]; exact nofun) fun hno => hno hsome
      · exact fun herr => absurd herr (by rw [hreply]; exact nofun)
      · cases hlasts.unique hlasts'
        refine ⟨hreply, (ttl.map UInt64.ofNat).map (Command.later now), hlasts.toNat_expiry, ?_, fun t ht => ?_⟩
        · rw [hl, Script.live_setting, hpurged.live]
        · exact h.get_after_set hs he hreply hs' (by rw [hl, Script.items_setting]) ht
      · exact fun _ _ hno => absurd hholds hno
    · rw [if_neg hholds] at hrun
      obtain ⟨e, s', he, hnull, hs', hl⟩ := h.answered_blind hs now hc rfl hrun
      have hreply : e.reply = .null := hnull
      refine ⟨e, s', he, hs', by rw [hreply]; exact nofun, ⟨?_, ?_, ?_, fun _ _ _ => ⟨hreply, due, hl ▸ hpurged, ?_⟩⟩⟩
      · exact iff_of_false (by rw [hreply]; exact nofun) fun hno => hno hsome
      · exact fun herr => absurd herr (by rw [hreply]; exact nofun)
      · exact fun _ _ hyes => absurd hyes hholds
      · exact fun k hk => SetCondition.eq_of_mem_looks (hdue k hk)
  · obtain ⟨err, hfails, herr⟩ := Script.run_setGeneric_of_not_lasts hlasts
    obtain ⟨e, s', he, hreply, hs', hl⟩ := h.answered_blind hs now hc rfl (hscript ▸ hfails)
    refine ⟨e, s', he, hs', ?_, ⟨iff_of_true (by rw [hreply]; rfl) hlasts, fun _ => hl, ?_, ?_⟩⟩
    · rw [hreply]
      rcases herr with rfl | rfl <;> exact fun hsame => absurd (Reply.error.inj hsame) (by decide)
    · exact fun ttl httl => absurd ⟨ttl, httl⟩ hlasts
    · exact fun ttl httl => absurd ⟨ttl, httl⟩ hlasts

/-- Words that do not spell compatible options are refused. -/
theorem Reachable.set_of_error [Decimals] [Decimals.Lawful] {err : Error} (h : m.Reachable) (hs : m.store? i = some s)
    (now : UInt64) (key value : Bytes) (hwords : SetOptions.ofWords words = .error err) :
    ∃ e s', (m.run i now (Request.processWrite (Request.setWords key value words))).1 = some (.ok e) ∧
      (m.after i now (Request.setWords key value words)).store? i = some s' ∧
      e.reply = .ofError .badSyntax ∧ s'.ledger = s.ledger := by
  have hrun : (Script.ofCommand .set (Request.setWords key value words).tail).run now s.ledger =
      (.error .badSyntax, s.ledger) := by
    show (Script.ofExcept (SetOptions.ofWords words) >>= fun _ => _).run now _ = _
    rw [hwords, SetOptions.eq_badSyntax_of_readOn hwords]
    rfl
  obtain ⟨e, s', he, hreply, hs', hl⟩ :=
    h.answered_blind hs now (Request.command?_setWords key value words) rfl hrun
  exact ⟨e, s', he, hs', hreply, hl⟩

/-! ### Commands that are a SET with options -/

/-- Two requests, each carried out in the same state, leave the same live contents, count as many changes, and report
the same but for keys that expiry removes. -/
def Alike [Decimals] (m : Multistore) (i : DomainId) (now : UInt64) (argv₁ argv₂ : List Bytes) : Prop :=
  ∃ s s₁ s₂, m.store? i = some s ∧ (m.after i now argv₁).store? i = some s₁ ∧
    (m.after i now argv₂).store? i = some s₂ ∧ Ledger.Tandem now s.ledger s.ledger s₁.ledger s₂.ledger

theorem Reachable.alike_set [Decimals] [Decimals.Lawful] (h : m.Reachable) (hs : m.store? i = some s)
    (hwords : SetOptions.ofWords words = .ok o) (hc : Request.command? argv = .ok c) (hb : c.isBlind = true)
    (hcommand : Script.ofCommand c argv.tail = Script.setGeneric c o key value r a) :
    m.Alike i now (Request.setWords key value words) argv := by
  obtain ⟨_, s₁, _, _, hs₁, hl₁⟩ := h.answered_blind hs now (Request.command?_setWords key value words) rfl rfl
  obtain ⟨_, s₂, _, _, hs₂, hl₂⟩ := h.answered_blind hs now hc hb rfl
  have hsame : ((Script.setGeneric c o key value r a).run now s.ledger).2 =
      ((Script.setGeneric .set o key value .ok .null).run now s.ledger).2 := Script.snd_run_setGeneric
  refine ⟨s, s₁, s₂, hs, hs₁, hs₂, ?_⟩
  rw [hl₁, hl₂, script_setWords key value hwords, hcommand, hsame]
  exact (Script.run_tandem _ rfl rfl).2

theorem Reachable.alike_getSet [Decimals] [Decimals.Lawful] {old : Option Bytes} (h : m.Reachable)
    (hs : m.store? i = some s) (hr : s.Reads key) (hold : (s.ledger.live now).string? key = .ok old) :
    m.Alike i now (Request.setWords key value []) [Bytes.ofString "GETSET", key, value] := by
  have hc : Request.command? [Bytes.ofString "GETSET", key, value] = .ok .getSet := rfl
  obtain ⟨_, s₁, _, _, hs₁, hl₁⟩ := h.answered_blind hs now (Request.command?_setWords key value []) rfl rfl
  obtain ⟨_, s₂, _, _, hs₂, hl₂⟩ := h.answered hs hc rfl (hr.of_keys rfl) (Script.run_getSetKey hold)
  have hcheck : Ledger.Tandem now s.ledger s.ledger s.ledger (s.ledger.check now key) :=
    (s.ledger.purged_check now key).tandem
  refine ⟨s, s₁, s₂, hs, hs₁, hs₂, ?_⟩
  rw [hl₁, hl₂]
  exact hcheck.trans (Script.run_tandem (Script.setGeneric .set {} key value .ok .null) Ledger.db_check.symm
    Ledger.live_check.symm).2

/-- SET with options: they are read if they spell compatible options, and asked for a time that there is; then the
key is set if the condition on it holds, to the value and for the time asked for. SETNX, SETEX, PSETEX and GETSET do
as SET with the options that they stand for. -/
theorem Reachable.set_with_options [Decimals] [Decimals.Lawful] (h : m.Reachable) (hs : m.store? i = some s)
    (now : UInt64) (key value arg : Bytes) (words : List Bytes) :
    (∃ e s', (m.run i now (Request.processWrite (Request.setWords key value words))).1 = some (.ok e) ∧
      (m.after i now (Request.setWords key value words)).store? i = some s' ∧
      (e.reply = .ofError .badSyntax ↔ ¬ ∃ os, Spells words os ∧ Compatible os) ∧
      (e.reply = .ofError .badSyntax → s'.ledger = s.ledger) ∧
      ∀ os, Spells words os → Compatible os → m.Sets i now key value words (SetOptions.of os) e s s') ∧
    m.Alike i now (Request.setWords key value [Bytes.ofString "NX"]) [Bytes.ofString "SETNX", key, value] ∧
    m.Alike i now (Request.setWords key value [Bytes.ofString "EX", arg]) [Bytes.ofString "SETEX", key, arg, value] ∧
    m.Alike i now (Request.setWords key value [Bytes.ofString "PX", arg]) [Bytes.ofString "PSETEX", key, arg, value] ∧
    ∀ old, s.Reads key → (s.ledger.live now).string? key = .ok old →
      m.Alike i now (Request.setWords key value []) [Bytes.ofString "GETSET", key, value] := by
  have hnx : SetOptions.ofWords [Bytes.ofString "NX"] = .ok { condition := .ifMissing } :=
    SetOptions.ofWords_eq_ok.mpr ⟨_, .nx rfl .nil, ⟨by simp, by simp⟩, rfl⟩
  have hex : SetOptions.ofWords [Bytes.ofString "EX", arg] = .ok { expire := some (arg, .seconds) } :=
    SetOptions.ofWords_eq_ok.mpr ⟨_, .ex rfl .nil, ⟨by simp, by simp⟩, rfl⟩
  have hpx : SetOptions.ofWords [Bytes.ofString "PX", arg] = .ok { expire := some (arg, .milliseconds) } :=
    SetOptions.ofWords_eq_ok.mpr ⟨_, .px rfl .nil, ⟨by simp, by simp⟩, rfl⟩
  refine ⟨?_, h.alike_set hs hnx (c := .setNx) rfl rfl rfl, h.alike_set hs hex (c := .setEx) rfl rfl rfl,
    h.alike_set hs hpx (c := .pSetEx) rfl rfl rfl, fun old hr hold => h.alike_getSet hs hr hold⟩
  cases hwords : SetOptions.ofWords words with
  | error err =>
      obtain ⟨e, s', he, hs', hreply, hl⟩ := h.set_of_error hs now key value hwords
      have hno (os : List SetOption) (hos : Spells words os) (hc : Compatible os) : False := by
        cases hwords.symm.trans (SetOptions.ofWords_eq_ok.mpr ⟨os, hos, hc, rfl⟩)
      exact ⟨e, s', he, hs', iff_of_true hreply fun ⟨os, hos, hc⟩ => hno os hos hc, fun _ => hl,
        fun os hos hc => (hno os hos hc).elim⟩
  | ok o =>
      obtain ⟨e, s', he, hs', hreply, hsets⟩ := h.sets hs now key value hwords
      obtain ⟨os, hos, hc, -⟩ := SetOptions.ofWords_eq_ok.mp hwords
      refine ⟨e, s', he, hs', iff_of_false hreply fun hno => hno ⟨os, hos, hc⟩, fun hsyntax => absurd hsyntax hreply,
        fun os' hos' hc' => ?_⟩
      cases hwords.symm.trans (SetOptions.ofWords_eq_ok.mpr ⟨os', hos', hc', rfl⟩)
      exact hsets

open scoped Decimal96

/-- A key that is present is set for seven milliseconds: the first PX takes the word after it, though it reads NX, and
the last one counts. -/
theorem set_with_options_repeated :
    let m := (create List.length [0]).after 0 0 [Bytes.ofString "PSETEX", [0x6b], [0x31, 0x30], [0x31]]
    let words := [Bytes.ofString "xX", Bytes.ofString "PX", Bytes.ofString "NX", Bytes.ofString "px", [0x37]]
    ∃ e, (m.run 0 5 (Request.processWrite (Request.setWords [0x6b] [0xff] words))).1 = some (.ok e) ∧ e.reply = .ok ∧
      (m.after 0 5 (Request.setWords [0x6b] [0xff] words)).get 0 12 [0x6b] = some (.ok (.bulk [0xff])) ∧
      m.Alike 0 5 (Request.setWords [0x6b] [0xff] []) [Bytes.ofString "GETSET", [0x6b], [0xff]] := by
  intro m words
  obtain ⟨h, s, hs, hr, hl⟩ :=
    exists_store?_first List.length 0 0 [Bytes.ofString "PSETEX", [0x6b], [0x31, 0x30], [0x31]]
  obtain ⟨⟨e, s', he, hs', -, -, hos⟩, -, -, -, hgetSet⟩ := h.set_with_options hs 5 [0x6b] [0xff] [] words
  have hspells : Spells words [.ifPresent, .lasts (Bytes.ofString "NX") .milliseconds, .lasts [0x37] .milliseconds] :=
    .xx rfl (.px rfl (.px rfl .nil))
  have hseven : TimeUnit.milliseconds.Gives [0x37] 7 := ⟨7, by decide +kernel, by decide, by decide, by decide⟩
  have hlive : s.ledger.live 5 [0x6b] = some ⟨.string [0x31], some 10⟩ := by
    rw [hl]
    decide +kernel
  obtain ⟨hok, expiry, hexpiry, -, hget⟩ :=
    (hos _ hspells ⟨by simp, by simp⟩).set (some 7) (.within hseven) (by rw [hlive]; exact nofun)
  refine ⟨e, he, hok, hget 12 ?_, hgetSet (some [0x31]) (hr _) ?_⟩
  · obtain ⟨x, rfl, hx⟩ := Option.map_eq_some_iff.mp hexpiry
    have hx : x = 12 := UInt64.toNat_inj.mp hx
    rw [hx]
    decide
  · simp only [Contents.string?, hlive]

end Multistore

end GraceStore
