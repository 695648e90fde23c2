/-
  Clarity/RateLimit.lean
  ======================
  **The relay's rate limiter** (`RateLimiter` and the head of the request loop in
  `relay/src/server.rs`).

  A window is kept for each address: the minute it was opened in, and how many requests
  it has seen.  A stale window is reset when its address comes back, and stale windows
  are thrown away wholesale once there are more than ten thousand; neither is visible
  from outside, because what a window says about the current minute (`held`) is the same
  before and after.

  A clock reading is the whole seconds since the limiter was built.

    * `allow_eq` — one call, in terms of `held`;
    * `tracks_snoc` — `held` is the naive per-minute count, one call further;
    * `tracks_after` — along a whole run, by induction from its end;
    * `answered_iff` — the request loop, addresses it cannot see included.
-/
import Clarity.Base
import Mathlib.Data.List.Induction

namespace Clarity

/-! ## 1. The limiter -/

/-- `std::net::IpAddr`. -/
inductive IpAddr where
  | v4 (octets : Vector UInt8 4)
  | v6 (octets : Vector UInt8 16)
deriving DecidableEq

namespace IpAddr

def octets : IpAddr → Bytes
  | v4 octets => octets.toList
  | v6 octets => octets.toList

/-- The two families have addresses of different lengths. -/
theorem octets_injective : Function.Injective octets := by
  intro a b h
  cases a with
  | v4 x =>
    cases b with
    | v4 y => exact congrArg v4 (Vector.toList_inj.mp h)
    | v6 y => simpa [octets] using congrArg List.length h
  | v6 x =>
    cases b with
    | v4 y => simpa [octets] using congrArg List.length h
    | v6 y => exact congrArg v6 (Vector.toList_inj.mp h)

instance : Ord IpAddr := ⟨compareOn octets⟩

instance : Std.TransOrd IpAddr :=
  inferInstanceAs (Std.TransCmp (compareOn octets))

instance : Std.LawfulEqOrd IpAddr where
  eq_of_compare h := octets_injective (Std.LawfulEqOrd.eq_of_compare (α := Bytes) h)

end IpAddr

/-- Fixed-window per-IP request counter. -/
structure RateLimiter where
  limit : UInt32
  windows : Std.ExtTreeMap IpAddr (UInt64 × UInt32)

/-- The minute of a clock reading. -/
def minuteOf (elapsedSecs : UInt64) : UInt64 := elapsedSecs / 60

namespace RateLimiter

def new (limit : UInt32) : RateLimiter := ⟨limit, ∅⟩

/-- Drop stale windows so the map tracks only currently-active peers. -/
def dropStale (windows : Std.ExtTreeMap IpAddr (UInt64 × UInt32)) (minute : UInt64) :
    Std.ExtTreeMap IpAddr (UInt64 × UInt32) :=
  if 10000 < windows.size then windows.filter fun _ entry => entry.1 == minute else windows

def allow (r : RateLimiter) (ip : IpAddr) (elapsedSecs : UInt64) : Bool × RateLimiter :=
  let minute := minuteOf elapsedSecs
  let windows := dropStale r.windows minute
  let entry := windows[ip]?.getD (minute, 0)
  let entry := if entry.1 ≠ minute then (minute, 0) else entry
  -- `entry` is a reference into the map, and `+=` on the `u32` wraps.
  let entry := (entry.1, entry.2 + 1)
  (entry.2 ≤ r.limit, { r with windows := windows.insert ip entry })

end RateLimiter

/-! ## 2. What the windows say about a minute -/

namespace RateLimiter

/-- The requests of a minute that the window of an address accounts for. -/
def held (windows : Std.ExtTreeMap IpAddr (UInt64 × UInt32)) (ip : IpAddr) (minute : UInt64) :
    UInt32 :=
  match windows[ip]? with
  | some entry => if entry.1 = minute then entry.2 else 0
  | none => 0

theorem held_empty (ip : IpAddr) (minute : UInt64) : held ∅ ip minute = 0 := by
  simp [held]

theorem held_insert (windows : Std.ExtTreeMap IpAddr (UInt64 × UInt32)) (ip ip' : IpAddr)
    (entry : UInt64 × UInt32) (minute : UInt64) :
    held (windows.insert ip entry) ip' minute =
      if ip' = ip then (if entry.1 = minute then entry.2 else 0) else held windows ip' minute := by
  by_cases h : ip' = ip
  · subst h
    simp [held]
  · have hcmp : compare ip ip' ≠ .eq := fun heq => h (Std.LawfulEqOrd.eq_of_compare heq).symm
    simp [held, Std.ExtTreeMap.getElem?_insert, hcmp, h]

/-- Pruning leaves the current minute alone, and can only forget another one. -/
theorem held_dropStale (windows : Std.ExtTreeMap IpAddr (UInt64 × UInt32)) (ip : IpAddr)
    (now minute : UInt64) :
    held (dropStale windows now) ip minute = held windows ip minute ∨
      (minute ≠ now ∧ held (dropStale windows now) ip minute = 0) := by
  unfold dropStale
  split
  · simp only [held, Std.ExtTreeMap.getElem?_filter]
    cases hget : windows[ip]? with
    | none => exact Or.inl rfl
    | some entry =>
      by_cases hkept : entry.1 = now
      · exact Or.inl (by simp [Option.filter_some, hkept])
      · -- The window is dropped: it is about some minute other than `now`.
        by_cases hm : minute = now
        · refine Or.inl ?_
          simp [Option.filter_some, hkept, hm]
        · exact Or.inr ⟨hm, by simp [Option.filter_some, hkept]⟩
  · exact Or.inl rfl

theorem held_dropStale_self (windows : Std.ExtTreeMap IpAddr (UInt64 × UInt32)) (ip : IpAddr)
    (now : UInt64) : held (dropStale windows now) ip now = held windows ip now := by
  rcases held_dropStale windows ip now now with h | ⟨hne, -⟩
  · exact h
  · exact absurd rfl hne

/-- One call: the answer, and what the windows say afterwards. -/
theorem allow_eq (r : RateLimiter) (ip : IpAddr) (elapsedSecs : UInt64) :
    (r.allow ip elapsedSecs).1 = decide (held r.windows ip (minuteOf elapsedSecs) + 1 ≤ r.limit) ∧
      (r.allow ip elapsedSecs).2 = { r with
        windows := (dropStale r.windows (minuteOf elapsedSecs)).insert ip
          (minuteOf elapsedSecs, held r.windows ip (minuteOf elapsedSecs) + 1) } := by
  have hentry : ∀ (windows : Std.ExtTreeMap IpAddr (UInt64 × UInt32)) (minute : UInt64),
      (if (windows[ip]?.getD (minute, (0 : UInt32))).1 ≠ minute then (minute, 0)
        else windows[ip]?.getD (minute, 0)) = (minute, held windows ip minute) := by
    intro windows minute
    unfold held
    cases windows[ip]? with
    | none => simp
    | some entry =>
      by_cases h : entry.1 = minute
      · simp [← h]
      · simp [h]
  have hself := held_dropStale_self r.windows ip (minuteOf elapsedSecs)
  unfold allow
  simp only [hentry, hself]
  exact ⟨trivial, trivial⟩

end RateLimiter

/-! ## 3. Runs, and the naive count -/

/-- A call of `allow`. -/
structure AllowCall where
  ip : IpAddr
  elapsedSecs : UInt64

namespace AllowCall

def minute (c : AllowCall) : UInt64 := minuteOf c.elapsedSecs

/-- The calls of an address in a minute. -/
def countIn (ip : IpAddr) (minute : UInt64) (calls : List AllowCall) : Nat :=
  calls.countP fun c => c.ip = ip ∧ c.minute = minute

theorem countIn_snoc (ip : IpAddr) (minute : UInt64) (calls : List AllowCall) (c : AllowCall) :
    countIn ip minute (calls ++ [c]) =
      countIn ip minute calls + if c.ip = ip ∧ c.minute = minute then 1 else 0 := by
  simp [countIn, List.countP_append, List.countP_cons]

/-- No call is ahead of the clock. -/
theorem countIn_eq_zero {ip : IpAddr} {minute : UInt64} {calls : List AllowCall}
    (h : ∀ c ∈ calls, c.minute < minute) : countIn ip minute calls = 0 := by
  refine List.countP_eq_zero.mpr fun c hc => ?_
  have hlt := h c hc
  simp only [decide_eq_true_eq, not_and]
  rintro - heq
  exact UInt64.lt_irrefl _ (heq ▸ hlt)

end AllowCall

namespace RateLimiter

open AllowCall

def allowCall (r : RateLimiter) (c : AllowCall) : Bool × RateLimiter := r.allow c.ip c.elapsedSecs

/-- The answers of a run of calls, in order. -/
def answers : RateLimiter → List AllowCall → List Bool
  | _, [] => []
  | r, c :: rest => (r.allowCall c).1 :: answers (r.allowCall c).2 rest

/-- The limiter after a run of calls. -/
def after (r : RateLimiter) (calls : List AllowCall) : RateLimiter :=
  calls.foldl (fun r c => (r.allowCall c).2) r

/-- At any minute that no call has gone past, every window says how many calls there
    were, modulo the width of the counter. -/
def Tracks (r : RateLimiter) (earlier : List AllowCall) : Prop :=
  ∀ minute : UInt64, (∀ c ∈ earlier, c.minute ≤ minute) → ∀ ip : IpAddr,
    held r.windows ip minute = UInt32.ofNat (countIn ip minute earlier)

theorem tracks_new (limit : UInt32) : Tracks (new limit) [] := by
  intro minute _ ip
  simp [new, held_empty, countIn]

theorem tracks_snoc {r : RateLimiter} {earlier : List AllowCall} {c : AllowCall} (h : Tracks r earlier)
    (hmono : ∀ c' ∈ earlier, c'.minute ≤ c.minute) :
    Tracks (r.allowCall c).2 (earlier ++ [c]) := by
  intro minute hle ip
  have hc : c.minute ≤ minute := hle c (by simp)
  have hold : held r.windows ip minute = UInt32.ofNat (countIn ip minute earlier) :=
    h minute (fun c' hc' => hle c' (List.mem_append_left _ hc')) ip
  rw [allowCall, (allow_eq r c.ip c.elapsedSecs).2, held_insert, countIn_snoc]
  by_cases hnow : minute = c.minute
  · subst hnow
    have hpruned := held_dropStale_self r.windows ip c.minute
    by_cases hip : ip = c.ip
    · subst hip
      have hown : held r.windows c.ip c.minute = UInt32.ofNat (countIn c.ip c.minute earlier) :=
        hold
      simp only [if_true, and_self]
      rw [if_pos (show minuteOf c.elapsedSecs = c.minute from rfl),
        show minuteOf c.elapsedSecs = c.minute from rfl, hown, UInt32.ofNat_add]
      rfl
    · rw [if_neg hip, if_neg fun heq => hip heq.1.symm, Nat.add_zero, ← hold]
      exact hpruned
  · -- A later minute: nobody has called in it, and no window is about it.
    have hlate : ∀ c' ∈ earlier, c'.minute < minute := by
      intro c' hc'
      refine UInt64.lt_of_le_of_lt (hmono c' hc') ?_
      exact UInt64.lt_of_le_of_ne hc (Ne.symm hnow)
    rw [countIn_eq_zero hlate] at hold ⊢
    rw [if_neg fun heq : c.ip = ip ∧ c.minute = minute => hnow heq.2.symm]
    split
    · exact if_neg fun heq : c.minute = minute => hnow heq.symm
    · rcases held_dropStale r.windows ip (minuteOf c.elapsedSecs) minute with heq | ⟨-, heq⟩
      · rw [heq, hold]
      · rw [heq]
        rfl

theorem after_snoc (r : RateLimiter) (calls : List AllowCall) (c : AllowCall) :
    r.after (calls ++ [c]) = ((r.after calls).allowCall c).2 := by
  simp [after, List.foldl_append]

theorem tracks_after (limit : UInt32) {calls : List AllowCall}
    (hmono : calls.Pairwise fun c c' => c.minute ≤ c'.minute) :
    Tracks ((new limit).after calls) calls := by
  induction calls using List.reverseRecOn with
  | nil => exact tracks_new limit
  | append_singleton calls c ih =>
    obtain ⟨hcalls, -, hlast⟩ := List.pairwise_append.mp hmono
    rw [after_snoc]
    exact tracks_snoc (ih hcalls) fun c' hc' => hlast c' hc' c (List.mem_singleton_self c)

@[simp] theorem limit_after (r : RateLimiter) (calls : List AllowCall) :
    (r.after calls).limit = r.limit := by
  induction calls using List.reverseRecOn with
  | nil => rfl
  | append_singleton calls c ih =>
    rw [after_snoc, allowCall, (allow_eq _ _ _).2]
    exact ih

/-- The answer at a position is what the limiter says after the calls before it. -/
theorem getElem?_answers (r : RateLimiter) (earlier : List AllowCall) (c : AllowCall) (later : List AllowCall) :
    (r.answers (earlier ++ c :: later))[earlier.length]? =
      some ((r.after earlier).allowCall c).1 := by
  induction earlier generalizing r with
  | nil => rfl
  | cons c' earlier ih => exact ih (r.allowCall c').2

/-- One more call after a run is let through when the address has calls left. -/
theorem allowCall_after (limit : UInt32) {earlier : List AllowCall} {c : AllowCall}
    (hmono : (earlier ++ [c]).Pairwise fun c c' => c.minute ≤ c'.minute)
    (hfew : countIn c.ip c.minute (earlier ++ [c]) < 2 ^ 32) :
    (((new limit).after earlier).allowCall c).1 =
      decide (countIn c.ip c.minute earlier < limit.toNat) := by
  obtain ⟨hearlier, -, hlast⟩ := List.pairwise_append.mp hmono
  have hheld : held ((new limit).after earlier).windows c.ip c.minute =
      UInt32.ofNat (countIn c.ip c.minute earlier) :=
    tracks_after limit hearlier c.minute
      (fun c' hc' => hlast c' hc' c (List.mem_singleton_self c)) c.ip
  rw [countIn_snoc, if_pos ⟨rfl, rfl⟩] at hfew
  have hsum : UInt32.ofNat (countIn c.ip c.minute earlier) + 1 =
      UInt32.ofNat (countIn c.ip c.minute earlier + 1) := (UInt32.ofNat_add _ _).symm
  rw [allowCall, (allow_eq _ _ _).1, limit_after]
  refine decide_eq_decide.mpr ?_
  rw [show minuteOf c.elapsedSecs = c.minute from rfl, hheld, hsum, UInt32.le_iff_toNat_le,
    UInt32.toNat_ofNat_of_lt' hfew]
  exact Nat.succ_le_iff

/-- **The limiter is the naive per-minute counter.**  In every run of calls whose minutes
    do not go back, a call is let through exactly when fewer than `limit` calls before it
    came from the same address in the same minute. -/
theorem allows_iff_fewer_calls (limit : UInt32) (calls : List AllowCall)
    (hmono : calls.Pairwise fun c c' => c.minute ≤ c'.minute)
    (hfew : ∀ (ip : IpAddr) (minute : UInt64), countIn ip minute calls < 2 ^ 32)
    {earlier later : List AllowCall} {c : AllowCall} (hcalls : calls = earlier ++ c :: later) :
    ((new limit).answers calls)[earlier.length]? =
      some (decide (countIn c.ip c.minute earlier < limit.toNat)) := by
  subst hcalls
  have hsplit : earlier ++ c :: later = (earlier ++ [c]) ++ later := by simp
  rw [getElem?_answers]
  rw [hsplit] at hmono hfew
  have hupTo : countIn c.ip c.minute (earlier ++ [c]) ≤
      countIn c.ip c.minute ((earlier ++ [c]) ++ later) :=
    (List.sublist_append_left (earlier ++ [c]) later).countP_le
  exact congrArg some (allowCall_after limit (List.pairwise_append.mp hmono).1
    (Nat.lt_of_le_of_lt hupTo (hfew c.ip c.minute)))

/-- Two calls of one address, then one of another, under a limit of one. -/
theorem allows_iff_fewer_calls_two :
    ((new 1).answers [⟨.v4 #v[10, 0, 0, 1], 61⟩, ⟨.v4 #v[10, 0, 0, 1], 119⟩,
        ⟨.v4 #v[10, 0, 0, 2], 119⟩])[1]? = some false :=
  @allows_iff_fewer_calls 1
    [⟨.v4 #v[10, 0, 0, 1], 61⟩, ⟨.v4 #v[10, 0, 0, 1], 119⟩, ⟨.v4 #v[10, 0, 0, 2], 119⟩]
    (by decide) (fun _ _ => Nat.lt_of_le_of_lt List.countP_le_length (by decide))
    [⟨.v4 #v[10, 0, 0, 1], 61⟩] [⟨.v4 #v[10, 0, 0, 2], 119⟩] ⟨.v4 #v[10, 0, 0, 1], 119⟩ rfl

end RateLimiter

/-! ## 4. The request loop -/

/-- Server options beyond the store's own limits. -/
structure ServeOptions where
  rateLimitPerMin : Option UInt32

/-- A request as the loop sees it before `handle`: its peer, when the socket knows it,
    and the limiter's clock. -/
structure Arrival where
  remoteAddr : Option IpAddr
  elapsedSecs : UInt64

namespace Arrival

/-- The call of `allow` that a request leads to, if there is a limiter. -/
def call? (a : Arrival) : Option AllowCall := a.remoteAddr.map fun ip => ⟨ip, a.elapsedSecs⟩

end Arrival

/-- The head of the loop: `false` is the answer `429`, `true` goes on to `handle`. -/
def pass (limiter : Option RateLimiter) (a : Arrival) : Bool × Option RateLimiter :=
  match limiter, a.call? with
  | some limiter, some c => ((limiter.allowCall c).1, some (limiter.allowCall c).2)
  | limiter, _ => (true, limiter)

def passAll : Option RateLimiter → List Arrival → List Bool
  | _, [] => []
  | limiter, a :: rest => (pass limiter a).1 :: passAll (pass limiter a).2 rest

/-- `serve_on_with`, as far as it decides which requests are handled. -/
def serveOnWith (options : ServeOptions) (arrivals : List Arrival) : List Bool :=
  passAll (options.rateLimitPerMin.map RateLimiter.new) arrivals

/-- Without a limit every request is handled. -/
theorem passAll_none (arrivals : List Arrival) :
    passAll none arrivals = arrivals.map fun _ => true := by
  induction arrivals with
  | nil => rfl
  | cons a rest ih => exact congrArg (true :: ·) ih

/-- The loop consults the limiter for the requests whose peer it can see. -/
theorem getElem?_passAll (r : RateLimiter) (earlier : List Arrival) (a : Arrival)
    (later : List Arrival) :
    (passAll (some r) (earlier ++ a :: later))[earlier.length]? =
      some (pass (some (r.after (earlier.filterMap Arrival.call?))) a).1 := by
  induction earlier generalizing r with
  | nil => rfl
  | cons a' earlier ih =>
    have hstep : (pass (some r) a').2 =
        some (match a'.call? with
          | some c => (r.allowCall c).2
          | none => r) := by
      cases hcall : a'.call? <;> simp [pass, hcall]
    rw [List.cons_append, passAll, List.length_cons, List.getElem?_cons_succ, hstep, ih]
    cases hcall : a'.call? with
    | none => rw [List.filterMap_cons_none hcall]
    | some c => rw [List.filterMap_cons_some hcall]; rfl

/-- **Which requests are answered with `429`**: those of an address that has used up its
    calls of the minute, and no request whose peer is unknown. -/
theorem handled_iff (limit : UInt32) (earlier : List Arrival) (a : Arrival) (later : List Arrival)
    (hmono : ((earlier ++ [a]).filterMap Arrival.call?).Pairwise fun c c' => c.minute ≤ c'.minute)
    (hfew : ∀ (ip : IpAddr) (minute : UInt64),
      AllowCall.countIn ip minute ((earlier ++ [a]).filterMap Arrival.call?) < 2 ^ 32) :
    (serveOnWith ⟨some limit⟩ (earlier ++ a :: later))[earlier.length]? =
      some (match a.call? with
        | some c => decide
            (AllowCall.countIn c.ip c.minute (earlier.filterMap Arrival.call?) < limit.toNat)
        | none => true) := by
  rw [serveOnWith, Option.map_some, getElem?_passAll]
  cases hcall : a.call? with
  | none => simp [pass, hcall]
  | some c =>
    rw [List.filterMap_append, List.filterMap_cons_some hcall] at hmono hfew
    simp only [pass, hcall]
    exact congrArg some (RateLimiter.allowCall_after limit hmono (hfew c.ip c.minute))

end Clarity
