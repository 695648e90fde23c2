/-
  Clarity/Timers.lean
  ===================
  **Disappearing messages** (`_sweepExpiredMessages`): when a sweep gets through, and
  when it still will after a restart.

  A sweep computes, for every contact with a timer and a conversation that is not
  empty, the time before which messages are deleted; that throws when the time cannot
  be represented, and nothing catches it.  Nothing checks a timer when it is set.

    * `sweep_ok_iff` — a sweep gets through exactly when no contact is stuck;
    * `stuck_of_sweep_throws` — and one that does not leaves its cause behind;
    * `restartable_handleIncoming_iff` — what an envelope must say for the app to stay
      one that can start again.
-/
import Clarity.Device

namespace Clarity

/-! ## 1. Times -/

/-- A time that a `DateTime` can hold. -/
def DateTime.Valid (t : DateTime) : Prop := t.toInt.natAbs ≤ MAX_DATE_MICROS.natAbs

instance (t : DateTime) : Decidable t.Valid := inferInstanceAs (Decidable (_ ≤ _))

/-- A timer reaches back from `now` to a time that can be represented. -/
def InReach (now : DateTime) (seconds : Int64) : Prop :=
  (now - durationMicros seconds).toInt.natAbs ≤ MAX_DATE_MICROS.natAbs

instance (now : DateTime) (seconds : Int64) : Decidable (InReach now seconds) :=
  inferInstanceAs (Decidable (_ ≤ _))

/-- It does so from now on. -/
def Sane (now : DateTime) (seconds : Int64) : Prop :=
  ∀ later : DateTime, now ≤ later → later.Valid → InReach later seconds

theorem subtract_of_inReach {now : DateTime} {seconds : Int64} (h : InReach now seconds) :
    DateTime.subtract now (durationMicros seconds) = .ok (now - durationMicros seconds) := if_pos h

theorem subtract_of_not_inReach {now : DateTime} {seconds : Int64} (h : ¬ InReach now seconds) :
    DateTime.subtract now (durationMicros seconds) = .error .rangeError := if_neg h

/-- Every timer of an ordinary length is sane. -/
theorem sane_of_nonneg {now : DateTime} {seconds : Int64} (hnow : 0 ≤ now.toInt)
    (hpos : 0 ≤ (durationMicros seconds).toInt)
    (hle : (durationMicros seconds).toInt ≤ MAX_DATE_MICROS) : Sane now seconds := by
  intro later hlater hvalid
  have hlater := Int64.le_iff_toInt_le.mp hlater
  unfold DateTime.Valid at hvalid
  unfold InReach
  rw [Int64.toInt_sub]
  have hmax : MAX_DATE_MICROS = 8640000000000000000 := rfl
  rw [hmax] at hvalid hle ⊢
  rw [Int.bmod_eq_of_le (by omega) (by omega)]
  omega

/-! ## 2. Sweeps -/

namespace AppState

variable {P : Suite Bytes}

/-- The timer of a contact. -/
def timer (s : AppState P) (k : Bytes32) : Option Int64 :=
  (s.contacts.get? k).bind Contact.retentionSeconds

/-- When the messages of a conversation were stamped. -/
def stamps (s : AppState P) (k : Bytes32) : List DateTime :=
  ((s.conversations.get? k).getD []).map ChatMessage.timestamp

/-- A contact with messages has a timer that is out of reach. -/
def Stuck (s : AppState P) (now : DateTime) : Prop :=
  ∃ k seconds, s.timer k = some seconds ∧ s.stamps k ≠ [] ∧ ¬ InReach now seconds

/-- What a sweep leaves of a conversation. -/
def unexpired (now : DateTime) (timer : Option Int64) (stamps : List DateTime) : List DateTime :=
  match timer with
  | none => stamps
  | some seconds => stamps.filter fun t => ¬ t < now - durationMicros seconds

theorem stamps_congr {s s' : AppState P} (h : s'.conversations = s.conversations) :
    s'.stamps = s.stamps := by
  unfold stamps
  rw [h]

theorem timer_congr {s s' : AppState P} (h : s'.contacts = s.contacts) : s'.timer = s.timer := by
  unfold timer
  rw [h]

theorem stamps_set (s : AppState P) (k k' : Bytes32) (messages : List ChatMessage) :
    ({ s with conversations := s.conversations.set k messages } : AppState P).stamps k' =
      if k' = k then messages.map ChatMessage.timestamp else s.stamps k' := by
  unfold stamps
  rw [LinkedMap.get?_set]
  split <;> rfl

/-- One contact of a sweep. -/
theorem sweepContacts_cons (now : DateTime) (k : Bytes32) (contact : Contact)
    (rest : List (Bytes32 × Contact)) (s : AppState P) :
    (∃ s', sweepContacts now ((k, contact) :: rest) s = sweepContacts now rest s' ∧
      (∀ seconds, contact.retentionSeconds = some seconds → s.stamps contact.identity ≠ [] →
        InReach now seconds) ∧
      ∀ k', s'.stamps k' = if k' = contact.identity then
        unexpired now contact.retentionSeconds (s.stamps contact.identity) else s.stamps k') ∨
    ∃ seconds, contact.retentionSeconds = some seconds ∧ s.stamps contact.identity ≠ [] ∧
      ¬ InReach now seconds ∧
      sweepContacts now ((k, contact) :: rest) s = (.error .rangeError, s) := by
  rcases sweepContacts_cases (rfl : sweepContacts now ((k, contact) :: rest) s = _) with
    ⟨hnone, heq⟩ | ⟨seconds, messages, hretention, hmessages, hne, hsub⟩
  · left
    refine ⟨s, heq.symm, ?_, ?_⟩
    · intro seconds hseconds hstamps
      rcases hnone with hnone | hempty
      · exact nomatch hnone.symm.trans hseconds
      · exact absurd (congrArg (List.map ChatMessage.timestamp) hempty) hstamps
    · intro k'
      split
      · rename_i hk
        subst hk
        rcases hnone with hnone | hempty
        · rw [show contact.retentionSeconds = none from hnone, unexpired]
        · have hstamps : s.stamps contact.identity = [] :=
            congrArg (List.map ChatMessage.timestamp) hempty
          rw [hstamps]
          cases contact.retentionSeconds <;> rfl
      · rfl
  · have hstamps : s.stamps contact.identity = messages.map ChatMessage.timestamp := by
      rw [stamps, hmessages, Option.getD_some]
    have hstamps' : s.stamps contact.identity ≠ [] := by
      rw [hstamps]
      exact fun hnil => hne (List.map_eq_nil_iff.mp hnil)
    by_cases hreach : InReach now seconds
    · left
      rw [subtract_of_inReach hreach] at hsub
      obtain ⟨thrown, hthrown, -⟩ | ⟨cutoff, hcutoff, heq⟩ := hsub
      · cases hthrown
      · obtain rfl := Except.ok.inj hcutoff
        refine ⟨_, heq.symm, ?_, ?_⟩
        · intro seconds' hseconds _
          obtain rfl := Option.some.inj (hretention.symm.trans hseconds)
          exact hreach
        · intro k'
          rw [stamps_set, hstamps]
          split
          · rw [show contact.retentionSeconds = some seconds from hretention, unexpired,
              List.filter_map]
            rfl
          · rfl
    · right
      rw [subtract_of_not_inReach hreach] at hsub
      obtain ⟨thrown, hthrown, heq⟩ | ⟨cutoff, hcutoff, -⟩ := hsub
      · obtain rfl := Except.error.inj hthrown
        exact ⟨seconds, hretention, hstamps', hreach, heq.symm⟩
      · cases hcutoff

/-- A sweep that gets through. -/
theorem sweepContacts_ok {now : DateTime} {l : List (Bytes32 × Contact)} {s s' : AppState P}
    (hnodup : (l.map fun e => e.2.identity).Nodup)
    (h : sweepContacts now l s = (.ok (), s')) :
    (∀ e ∈ l, ∀ seconds, e.2.retentionSeconds = some seconds → s.stamps e.2.identity ≠ [] →
      InReach now seconds) ∧
    (∀ e ∈ l, s'.stamps e.2.identity =
      unexpired now e.2.retentionSeconds (s.stamps e.2.identity)) ∧
    ∀ k, k ∉ l.map (fun e => e.2.identity) → s'.stamps k = s.stamps k := by
  induction l generalizing s with
  | nil =>
    rw [sweepContacts_nil] at h
    cases h
    exact ⟨fun _ he => absurd he List.not_mem_nil, fun _ he => absurd he List.not_mem_nil,
      fun _ _ => rfl⟩
  | cons e rest ih =>
    obtain ⟨k, contact⟩ := e
    rw [List.map_cons, List.nodup_cons] at hnodup
    obtain ⟨hnot, hnodup⟩ := hnodup
    rcases sweepContacts_cons now k contact rest s with
      ⟨s1, hs1, hreach, hstamps⟩ | ⟨_, _, _, _, herr⟩
    · rw [hs1] at h
      obtain ⟨hreaches, hswept, hothers⟩ := ih hnodup h
      have hother : ∀ e ∈ rest, s1.stamps e.2.identity = s.stamps e.2.identity := by
        intro e he
        rw [hstamps, if_neg]
        intro hid
        exact hnot (List.mem_map.mpr ⟨e, he, hid⟩)
      refine ⟨?_, ?_, ?_⟩
      · intro e he
        rcases List.mem_cons.mp he with rfl | he
        · exact hreach
        · rw [← hother e he]
          exact hreaches e he
      · intro e he
        rcases List.mem_cons.mp he with rfl | he
        · rw [hothers _ hnot, hstamps, if_pos rfl]
        · rw [hswept e he, hother e he]
      · intro k' hk'
        rw [List.map_cons, List.mem_cons, not_or] at hk'
        rw [hothers k' hk'.2, hstamps, if_neg hk'.1]
    · rw [herr] at h
      cases h

/-- One that throws stops at a contact, and leaves its conversation as it was. -/
theorem sweepContacts_throws {now : DateTime} {l : List (Bytes32 × Contact)} {s s' : AppState P}
    {t : Thrown} (hnodup : (l.map fun e => e.2.identity).Nodup)
    (h : sweepContacts now l s = (.error t, s')) :
    ∃ e ∈ l, ∃ seconds, e.2.retentionSeconds = some seconds ∧ ¬ InReach now seconds ∧
      s.stamps e.2.identity ≠ [] ∧ s'.stamps e.2.identity = s.stamps e.2.identity := by
  induction l generalizing s with
  | nil =>
    rw [sweepContacts_nil] at h
    cases h
  | cons e rest ih =>
    obtain ⟨k, contact⟩ := e
    rw [List.map_cons, List.nodup_cons] at hnodup
    obtain ⟨hnot, hnodup⟩ := hnodup
    rcases sweepContacts_cons now k contact rest s with
      ⟨s1, hs1, -, hstamps⟩ | ⟨seconds, hretention, hne, hreach, herr⟩
    · rw [hs1] at h
      obtain ⟨e, he, seconds, hretention, hreach, hne, hkept⟩ := ih hnodup h
      have hother : s1.stamps e.2.identity = s.stamps e.2.identity := by
        rw [hstamps, if_neg]
        intro hid
        exact hnot (List.mem_map.mpr ⟨e, he, hid⟩)
      rw [hother] at hne hkept
      exact ⟨e, List.mem_cons_of_mem _ he, seconds, hretention, hreach, hne, hkept⟩
    · rw [herr] at h
      cases h
      exact ⟨_, List.mem_cons_self .., seconds, hretention, hreach, hne, rfl⟩

/-! Where every contact is filed under its own identity. -/

theorem Keyed.nodup {s : AppState P} (h : s.Keyed) :
    (s.contacts.entries.map fun e => e.2.identity).Nodup := by
  have hkeys : (s.contacts.entries.map fun e => e.2.identity) = s.contacts.entries.map Prod.fst := by
    apply List.map_congr_left
    intro e he
    exact h e.1 e.2 (LinkedMap.get?_eq_some_iff.mpr he)
  rw [hkeys]
  exact s.contacts.nodup

theorem Keyed.timer_eq {s : AppState P} (h : s.Keyed) {e : Bytes32 × Contact}
    (he : e ∈ s.contacts.entries) : s.timer e.2.identity = e.2.retentionSeconds := by
  have hget := LinkedMap.get?_eq_some_iff.mpr he
  unfold timer
  rw [h _ _ hget, hget, Option.bind_some]

theorem exists_entry_of_timer {s : AppState P} {k : Bytes32} {seconds : Int64} (h : s.Keyed)
    (htimer : s.timer k = some seconds) :
    ∃ e ∈ s.contacts.entries, e.2.identity = k ∧ e.2.retentionSeconds = some seconds := by
  obtain ⟨contact, hget, hretention⟩ := Option.bind_eq_some_iff.mp htimer
  exact ⟨(k, contact), LinkedMap.get?_eq_some_iff.mp hget, h _ _ hget, hretention⟩

variable {s : AppState P} {now : DateTime}

theorem timer_swept : (s.sweepExpiredMessages now).2.timer = s.timer := by
  obtain ⟨conversations, hframe⟩ := sweepExpiredMessages_frame now s
  rw [hframe]
  exact timer_congr rfl

/-- What a sweep that throws has not deleted stays its cause. -/
theorem stuck_of_sweep_throws (h : s.Keyed) {t : Thrown}
    (hthrows : (s.sweepExpiredMessages now).1 = .error t) :
    s.Stuck now ∧ (s.sweepExpiredMessages now).2.Stuck now := by
  obtain ⟨e, he, seconds, hretention, hreach, hne, hkept⟩ :=
    sweepContacts_throws h.nodup (Prod.ext hthrows rfl)
  have htimer : s.timer e.2.identity = some seconds := by rw [h.timer_eq he, hretention]
  constructor
  · exact ⟨_, seconds, htimer, hne, hreach⟩
  · refine ⟨e.2.identity, seconds, ?_, ?_, hreach⟩
    · rw [timer_swept, htimer]
    · rw [sweepExpiredMessages, hkept]
      exact hne

theorem stamps_swept (h : s.Keyed) (hok : (s.sweepExpiredMessages now).1 = .ok ()) (k : Bytes32) :
    (s.sweepExpiredMessages now).2.stamps k = unexpired now (s.timer k) (s.stamps k) := by
  obtain ⟨-, hswept, hothers⟩ := sweepContacts_ok h.nodup (Prod.ext hok rfl)
  by_cases hk : k ∈ s.contacts.entries.map fun e => e.2.identity
  · obtain ⟨e, he, rfl⟩ := List.mem_map.mp hk
    rw [h.timer_eq he]
    exact hswept e he
  · have hnone : s.timer k = none := by
      cases htimer : s.timer k with
      | none => rfl
      | some seconds =>
        obtain ⟨e, he, hid, -⟩ := exists_entry_of_timer h htimer
        exact absurd (List.mem_map.mpr ⟨e, he, hid⟩) hk
    rw [hnone]
    exact hothers k hk

/-- **When a sweep gets through.** -/
theorem sweep_ok_iff (h : s.Keyed) :
    (s.sweepExpiredMessages now).1 = .ok () ↔ ¬ s.Stuck now := by
  constructor
  · rintro hok ⟨k, seconds, htimer, hne, hreach⟩
    obtain ⟨hreaches, -, -⟩ := sweepContacts_ok h.nodup (Prod.ext hok rfl)
    obtain ⟨e, he, rfl, hretention⟩ := exists_entry_of_timer h htimer
    exact hreach (hreaches e he seconds hretention hne)
  · intro hstuck
    cases hres : (s.sweepExpiredMessages now).1 with
    | ok u => rfl
    | error t => exact absurd (stuck_of_sweep_throws h hres).1 hstuck

/-! ## 3. Starting again -/

/-- The sweep of `initialize` gets through at every time from `now` on, as far as the
    timers and the conversations are these. -/
def Restartable (s : AppState P) (now : DateTime) : Prop :=
  ∀ later, now ≤ later → later.Valid → ¬ s.Stuck later

theorem restartable_iff : s.Restartable now ↔
    ∀ k seconds, s.timer k = some seconds → s.stamps k ≠ [] → Sane now seconds := by
  constructor
  · intro h k seconds htimer hne later hlater hvalid
    by_contra hreach
    exact h later hlater hvalid ⟨k, seconds, htimer, hne, hreach⟩
  · rintro h later hlater hvalid ⟨k, seconds, htimer, hne, hreach⟩
    exact hreach (h k seconds htimer hne later hlater hvalid)

theorem restartable_congr {s' : AppState P} (hcontacts : s'.contacts = s.contacts)
    (hconversations : s'.conversations = s.conversations) :
    s'.Restartable now ↔ s.Restartable now := by
  rw [restartable_iff, restartable_iff, timer_congr hcontacts, stamps_congr hconversations]

/-- A sweep, and what is left then. -/
theorem restartable_swept_iff (h : s.Keyed) (hnow : now.Valid) :
    (s.sweepExpiredMessages now).2.Restartable now ↔
      ∀ k seconds, s.timer k = some seconds → s.stamps k ≠ [] →
        InReach now seconds ∧
          ((∃ t ∈ s.stamps k, ¬ t < now - durationMicros seconds) → Sane now seconds) := by
  cases hres : (s.sweepExpiredMessages now).1 with
  | ok u =>
    have hclear := (sweep_ok_iff h).mp hres
    have hleft : ∀ k seconds, s.timer k = some seconds →
        ((s.sweepExpiredMessages now).2.stamps k ≠ [] ↔
          ∃ t ∈ s.stamps k, ¬ t < now - durationMicros seconds) := by
      intro k seconds htimer
      rw [stamps_swept h hres, htimer, unexpired, Ne, List.filter_eq_nil_iff]
      simp
    rw [restartable_iff, timer_swept]
    constructor
    · intro hsane k seconds htimer hne
      constructor
      · by_contra hreach
        exact hclear ⟨k, seconds, htimer, hne, hreach⟩
      · intro hstays
        exact hsane k seconds htimer ((hleft k seconds htimer).mpr hstays)
    · intro hmild k seconds htimer hne
      have hstays := (hleft k seconds htimer).mp hne
      refine (hmild k seconds htimer ?_).2 hstays
      obtain ⟨t, ht, -⟩ := hstays
      exact List.ne_nil_of_mem ht
  | error t =>
    obtain ⟨hstuck, hafter⟩ := stuck_of_sweep_throws h hres
    constructor
    · intro hrestart
      exact absurd hafter (hrestart now (Int64.le_refl now) hnow)
    · intro hmild
      obtain ⟨k, seconds, htimer, hne, hreach⟩ := hstuck
      exact absurd (hmild k seconds htimer hne).1 hreach

/-! ## 4. What an envelope says -/

/-- A timer for a contact on file: taking it in ends with a sweep. -/
def retimes (s : AppState P) (sender : Bytes32) : MessageContent → Bool
  | .timerUpdate _ => (s.contacts.get? sender).isSome
  | _ => false

/-- Taking the content in adds a message to the sender's conversation. -/
def appends (s : AppState P) (sender : Bytes32) : MessageContent → Bool
  | .text _ => true
  | .timerUpdate _ => (s.contacts.get? sender).isSome
  | .unknown => false

/-- The timers once the content is taken in. -/
def timerAfter (s : AppState P) (sender : Bytes32) (content : MessageContent) (k : Bytes32) :
    Option Int64 :=
  match content with
  | .timerUpdate seconds =>
    if k = sender then (s.contacts.get? sender).bind fun _ => seconds else s.timer k
  | _ => s.timer k

/-- The stamps once the content is taken in. -/
def stampsAfter (s : AppState P) (sender : Bytes32) (content : MessageContent) (now : DateTime)
    (k : Bytes32) : List DateTime :=
  if k = sender ∧ s.appends sender content then s.stamps k ++ [now] else s.stamps k

/-- Every timer over a conversation with messages is sane; where the content makes the
    app sweep, every such timer is in reach, and it is sane if the sweep leaves one of
    the messages. -/
def Harmless (s : AppState P) (sender : Bytes32) (content : MessageContent) (now : DateTime) :
    Prop :=
  ∀ k seconds, s.timerAfter sender content k = some seconds →
    s.stampsAfter sender content now k ≠ [] →
    if s.retimes sender content then
      InReach now seconds ∧
        ((∃ t ∈ s.stampsAfter sender content now k, ¬ t < now - durationMicros seconds) →
          Sane now seconds)
    else Sane now seconds

theorem stamps_append (s : AppState P) (sender k : Bytes32) (m : ChatMessage) :
    (s.append sender m).stamps k =
      if k = sender then s.stamps k ++ [m.timestamp] else s.stamps k := by
  rw [append, stamps_set]
  split
  · rename_i hk
    rw [hk, List.map_append]
    rfl
  · rfl

/-- The contact with its new timer and the line about it, before the sweep. -/
def retime (s : AppState P) (sender : Bytes32) (contact : Contact) (seconds : Option Int64)
    (now : DateTime) : AppState P :=
  { s with contacts := s.contacts.set sender { contact with retentionSeconds := seconds } }.append
    sender ⟨.info, contact.displayName ++
      utf16 (" set disappearing messages to " ++ retentionLabel seconds ++ "."), now⟩

theorem Keyed.retime (h : s.Keyed) {sender : Bytes32} {contact : Contact}
    (hcontact : s.contacts.get? sender = some contact) (seconds : Option Int64) :
    (s.retime sender contact seconds now).Keyed := by
  have hid : contact.identity = sender := h _ _ hcontact
  exact h.set (c := { contact with retentionSeconds := seconds }) rfl hid

/-- A timer that is taken in ends with the sweep. -/
theorem showContent_timer {sender : Bytes32} {contact : Contact}
    (hcontact : s.contacts.get? sender = some contact) (seconds : Option Int64) :
    s.showContent sender (.timerUpdate seconds) now =
      (((s.retime sender contact seconds now).sweepExpiredMessages now).1.map fun _ => true,
        ((s.retime sender contact seconds now).sweepExpiredMessages now).2) := by
  simp only [showContent, hcontact, AppState.retime]
  split <;> rename_i hsweep <;> rw [hsweep] <;> rfl

/-- Taking in a content leaves an app that can start again exactly when it is harmless. -/
theorem restartable_showContent_iff (h : s.Keyed) (hnow : now.Valid) (sender : Bytes32)
    (content : MessageContent) :
    (s.showContent sender content now).2.Restartable now ↔ s.Harmless sender content now := by
  cases content with
  | text body =>
    have htimer : ∀ k, (s.append sender ⟨.incoming, body, now⟩).timer k = s.timer k := fun _ => rfl
    have hstamps : ∀ k, (s.append sender ⟨.incoming, body, now⟩).stamps k =
        s.stampsAfter sender (.text body) now k := by
      intro k
      simp only [stamps_append, stampsAfter, appends, and_true]
    simp only [showContent, restartable_iff, htimer, hstamps]
    simp only [Harmless, timerAfter, retimes, Bool.false_eq_true, if_false]
  | unknown =>
    have hstamps : ∀ k, s.stampsAfter sender .unknown now k = s.stamps k := by
      intro k
      simp only [stampsAfter, appends, Bool.false_eq_true, and_false, if_false]
    simp only [showContent, restartable_iff]
    simp only [Harmless, timerAfter, hstamps, retimes, Bool.false_eq_true, if_false]
  | timerUpdate seconds =>
    cases hcontact : s.contacts.get? sender with
    | none =>
      have htimer : ∀ k, s.timerAfter sender (.timerUpdate seconds) k = s.timer k := by
        intro k
        simp only [timerAfter, hcontact, Option.bind_none]
        split
        · rename_i hk
          rw [hk, timer, hcontact, Option.bind_none]
        · rfl
      have hstamps : ∀ k, s.stampsAfter sender (.timerUpdate seconds) now k = s.stamps k := by
        intro k
        simp only [stampsAfter, appends, hcontact, Option.isSome_none, Bool.false_eq_true,
          and_false, if_false]
      simp only [showContent, hcontact, restartable_iff]
      simp only [Harmless, htimer, hstamps, retimes, hcontact, Option.isSome_none,
        Bool.false_eq_true, if_false]
    | some contact =>
      have htimer : ∀ k, (s.retime sender contact seconds now).timer k =
          s.timerAfter sender (.timerUpdate seconds) k := by
        intro k
        simp only [timerAfter, hcontact, Option.bind_some]
        show ((s.contacts.set sender _).get? k).bind _ = _
        rw [LinkedMap.get?_set]
        split <;> rfl
      have hstamps : ∀ k, (s.retime sender contact seconds now).stamps k =
          s.stampsAfter sender (.timerUpdate seconds) now k := by
        intro k
        simp only [AppState.retime, stamps_append, stampsAfter, appends, hcontact,
          Option.isSome_some, and_true]
        rfl
      rw [showContent_timer hcontact, restartable_swept_iff (h.retime hcontact seconds) hnow]
      simp only [Harmless, htimer, hstamps, retimes, hcontact, Option.isSome_some, if_true]

/-- Where it throws, the app cannot start again at that time. -/
theorem stuck_of_showContent_throws (h : s.Keyed) {sender : Bytes32} {content : MessageContent}
    {t : Thrown} (hthrows : (s.showContent sender content now).1 = .error t) :
    (s.showContent sender content now).2.Stuck now := by
  cases content with
  | text body => cases hthrows
  | unknown => cases hthrows
  | timerUpdate seconds =>
    cases hcontact : s.contacts.get? sender with
    | none =>
      simp only [showContent, hcontact] at hthrows
      cases hthrows
    | some contact =>
      rw [showContent_timer hcontact] at hthrows ⊢
      cases hres : ((s.retime sender contact seconds now).sweepExpiredMessages now).1 with
      | ok u =>
        rw [hres] at hthrows
        cases hthrows
      | error e => exact (stuck_of_sweep_throws (h.retime hcontact seconds) hres).2

/-- Where decryption fails, contacts and conversations stay as they are. -/
theorem receive_none {opened : OpenedEnvelope} {fresh : P.Secret} {draws : Nat → P.Secret}
    (hnone : (s.receive opened fresh draws).1 = none) :
    (s.receive opened fresh draws).2.contacts = s.contacts ∧
      (s.receive opened fresh draws).2.conversations = s.conversations := by
  unfold receive at hnone ⊢
  dsimp only at hnone ⊢
  split
  · exact ⟨rfl, rfl⟩
  · rename_i m hm
    rw [hm] at hnone
    cases hsession : s.sessions.get? opened.senderIdentityEd with
    | some existing => exact ⟨rfl, rfl⟩
    | none =>
      rw [hsession] at hnone
      rcases hrespond : Session.respond s.account fresh m with ⟨e | ⟨session, first⟩, account⟩
      · exact ⟨rfl, rfl⟩
      · simp only [hrespond] at hnone
        cases hnone

/-- What an envelope must say for the app to stay one that can start again. -/
def Mild (D : DartConvert) (s : AppState P) (raw : Bytes) (fresh : P.Secret)
    (draws : Nat → P.Secret) (now : DateTime) : Prop :=
  match openEnvelope s.account raw with
  | .error _ => s.Restartable now
  | .ok opened =>
    match s.receive opened fresh draws with
    | (none, _) => s.Restartable now
    | (some plaintext, received) =>
      received.Harmless opened.senderIdentityEd (MessageContent.decode D plaintext) now

/-- **One envelope.** -/
theorem restartable_handleIncoming_iff (h : s.Keyed) (hnow : now.Valid) (D : DartConvert)
    (raw : Bytes) (fresh : P.Secret) (draws : Nat → P.Secret) :
    (s.handleIncoming D raw fresh draws now).2.Restartable now ↔ s.Mild D raw fresh draws now := by
  unfold handleIncoming Mild
  cases hopen : openEnvelope s.account raw with
  | error e => exact Iff.rfl
  | ok opened =>
    have hkeyed := h.receive opened fresh draws
    rcases hrecv : s.receive opened fresh draws with ⟨_ | plaintext, received⟩
    · obtain ⟨hcontacts, hconversations⟩ := receive_none (by rw [hrecv])
      rw [hrecv] at hcontacts hconversations
      simp only [hrecv]
      exact restartable_congr hcontacts hconversations
    · rw [hrecv] at hkeyed
      simp only [hrecv]
      exact restartable_showContent_iff hkeyed hnow _ _

/-- **An envelope whose handler throws** leaves an app that cannot start again. -/
theorem stuck_of_handleIncoming_throws (h : s.Keyed) {D : DartConvert} {raw : Bytes}
    {fresh : P.Secret} {draws : Nat → P.Secret} {t : Thrown}
    (hthrows : (s.handleIncoming D raw fresh draws now).1 = .error t) :
    (s.handleIncoming D raw fresh draws now).2.Stuck now := by
  unfold handleIncoming at hthrows ⊢
  cases hopen : openEnvelope s.account raw with
  | error e =>
    rw [hopen] at hthrows
    cases hthrows
  | ok opened =>
    have hkeyed := h.receive opened fresh draws
    simp only [hopen] at hthrows ⊢
    rcases hrecv : s.receive opened fresh draws with ⟨_ | plaintext, received⟩
    · rw [hrecv] at hthrows
      cases hthrows
    · rw [hrecv] at hkeyed
      simp only [hrecv] at hthrows ⊢
      exact stuck_of_showContent_throws hkeyed hthrows

end AppState

end Clarity
