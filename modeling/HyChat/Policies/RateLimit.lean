import HyChat.Lib.Calendar
import HyChat.Lib.Lts
import Mathlib.Data.Finset.Card
import Mathlib.Data.String.Basic
import Mathlib.Order.Interval.Finset.Nat

/-!
# Requests per minute

What `enforce_model` does once the model is authorized: it reads the clock, increments the counter
of the user and the minute, gives a new counter two minutes to live, and refuses the call when the
counter is above the user's limit. Any number of calls do so at the same time, the clock goes on,
Redis may fail at every statement, and a call may die.

**No more calls are counted, compared and let through than the limit allows** among those that
reach Redis within two minutes, and who is refused has really made as many calls (`calls_limited`).

The counter lives for two minutes from the moment it was new, not from the start of its minute. A
call that has read the clock and reaches Redis much later finds a new counter under an old key, so
the theorem counts the calls that are in time (`Increment.InTime`). A call for which Redis raises
is not limited at all: the code lets it through without comparing, also where its INCR took effect.
It stands apart as `failedOpen`, and it still counts against the others, so that a refused call may
owe its refusal to calls that were let through like this.

The invariant says that the counts handed out under one key are different numbers. From that the
limit follows by counting, whatever the order of the commands was.
-/

set_option autoImplicit false

namespace HyChat

open Lib Calendar

namespace RateLimit

/-! ## The keys -/

/-- `policy:rpm:{user_id}:{minute}` -/
def rpmKey (userId : String) (now : Nat) : String :=
  let minute := String.ofList (stamp now)
  s!"policy:rpm:{userId}:{minute}"

/-- What stands before the first colon -/
theorem split_colon {a b x y : List Char} (ha : ':' ∉ a) (hb : ':' ∉ b)
    (h : a ++ ':' :: x = b ++ ':' :: y) : a = b ∧ x = y := by
  induction a generalizing b with
  | nil =>
    cases b with
    | nil => exact ⟨rfl, (List.cons.inj h).2⟩
    | cons c b => exact absurd ((List.cons.inj h).1 ▸ List.mem_cons_self) hb
  | cons c a ih =>
    cases b with
    | nil => exact absurd ((List.cons.inj h).1 ▸ List.mem_cons_self) ha
    | cons c' b =>
      obtain ⟨rfl, hrest⟩ := List.cons.inj h
      obtain ⟨rfl, rfl⟩ := ih (fun hm => ha (List.mem_cons_of_mem _ hm))
        (fun hm => hb (List.mem_cons_of_mem _ hm)) hrest
      exact ⟨rfl, rfl⟩

/-- **A counter belongs to one user and one minute.** -/
theorem rpmKey_inj {u u' : String} {t t' : Nat} :
    rpmKey u t = rpmKey u' t' ↔ u = u' ∧ minuteOf t = minuteOf t' := by
  have hkey : ∀ (u : String) (t : Nat), rpmKey u t =
      "policy:rpm:" ++ u ++ ":" ++ String.ofList (stamp t) := fun _ _ => rfl
  constructor
  · intro h
    have hlist := congrArg String.toList h
    simp only [hkey, String.toList_append, String.toList_ofList, List.append_assoc] at hlist
    have hrest := List.append_cancel_left hlist
    have hreversed := congrArg List.reverse hrest
    have hcolon : ":".toList = [':'] := rfl
    simp only [hcolon, List.reverse_append, List.reverse_cons, List.append_assoc,
      List.singleton_append] at hreversed
    have hnone : ∀ t, ':' ∉ (stamp t).reverse := fun t hmem =>
      stamp_digits t ':' (List.mem_reverse.mp hmem) rfl
    obtain ⟨hstamp, huser⟩ := split_colon (hnone t) (hnone t') hreversed
    exact ⟨String.toList_inj.mp (List.reverse_inj.mp huser),
      stamp_inj.mp (List.reverse_inj.mp hstamp)⟩
  · rintro ⟨rfl, h⟩
    rw [rpmKey, rpmKey, stamp_inj.mpr h]

/-! ## The calls -/

/-- A counter, and when it expires -/
structure Counter where
  count : Nat
  expiresAt : Option Nat

/-- The clock as it was read, the time of the INCR, and what the counter has become -/
structure Increment where
  read : Nat
  time : Nat
  count : Nat

/-- Where a call stands -/
inductive Phase
  | start
  | incr (read : Nat)
  /-- The counter is new. -/
  | expire (inc : Increment)
  | compare (inc : Increment)
  | passed (inc : Increment) (limit : Int)
  | refused (inc : Increment) (limit : Int)
  /-- Redis has raised an error; the call goes on without a limit. -/
  | failedOpen (inc : Option Increment)
  | dead (inc : Option Increment)

/-- What the call has added to the counter -/
def Phase.increment? : Phase → Option Increment
  | .start => none
  | .incr _ => none
  | .expire inc => some inc
  | .compare inc => some inc
  | .passed inc _ => some inc
  | .refused inc _ => some inc
  | .failedOpen inc => inc
  | .dead inc => inc

/-- The call has neither ended nor died. -/
def Phase.goesOn : Phase → Bool
  | .start => true
  | .incr _ => true
  | .expire _ => true
  | .compare _ => true
  | _ => false

variable {ι : Type}

structure State (ι : Type) where
  now : Nat
  redis : String → Option Counter
  phase : ι → Phase

/-- What a statement does when it raises: its effect may have happened all the same. -/
inductive Fault
  | before
  | after

inductive Action (ι : Type)
  | tick (seconds : Nat)
  | readClock (i : ι)
  | incr (i : ι) (fault : Option Fault)
  | expire (i : ι) (fault : Option Fault)
  /-- The limit is the policy's at that moment. -/
  | compare (i : ι) (limit : Int)
  | die (i : ι)

def State.start (now : Nat) : State ι := ⟨now, fun _ => none, fun _ => .start⟩

/-- A counter that has expired is not there any more. -/
def State.look (s : State ι) (key : String) : Option Counter :=
  (s.redis key).filter fun c => c.expiresAt.all (s.now < ·)

/-- What `INCR` makes of the counter -/
def State.increased (s : State ι) (key : String) : Counter :=
  match s.look key with
  | some c => { c with count := c.count + 1 }
  | none => ⟨1, none⟩

def rpmKeyTtl : Nat := 120

/-- `EXPIRE`, which does nothing to a counter that is not there -/
def State.expired (s : State ι) (key : String) : String → Option Counter :=
  match s.look key with
  | some c => Function.update s.redis key (some { c with expiresAt := some (s.now + rpmKeyTtl) })
  | none => s.redis

variable [DecidableEq ι]

def State.set (s : State ι) (i : ι) (phase : Phase) : State ι :=
  { s with phase := Function.update s.phase i phase }

/-- The calls of the users; `userOf i` is the user of call `i`. -/
def enforceModel (userOf : ι → String) : Lts (State ι) (Action ι) where
  step s
    | .tick seconds => some { s with now := s.now + seconds }
    | .readClock i =>
        match s.phase i with
        | .start => some (s.set i (.incr s.now))
        | _ => none
    | .incr i fault =>
        match s.phase i with
        | .incr read =>
            let key := rpmKey (userOf i) read
            let counter := s.increased key
            let inc : Increment := ⟨read, s.now, counter.count⟩
            let s' := { s with redis := Function.update s.redis key (some counter) }
            match fault with
            | none => some (s'.set i (if counter.count = 1 then .expire inc else .compare inc))
            | some .before => some (s.set i (.failedOpen none))
            | some .after => some (s'.set i (.failedOpen (some inc)))
        | _ => none
    | .expire i fault =>
        match s.phase i with
        | .expire inc =>
            let s' := { s with redis := s.expired (rpmKey (userOf i) inc.read) }
            match fault with
            | none => some (s'.set i (.compare inc))
            | some .before => some (s.set i (.failedOpen (some inc)))
            | some .after => some (s'.set i (.failedOpen (some inc)))
        | _ => none
    | .compare i limit =>
        match s.phase i with
        | .compare inc =>
            some (s.set i (if limit < inc.count then .refused inc limit else .passed inc limit))
        | _ => none
    | .die i => if (s.phase i).goesOn then some (s.set i (.dead (s.phase i).increment?)) else none

/-! ## What the counters stand for -/

def State.increment? (s : State ι) (i : ι) : Option Increment := (s.phase i).increment?

/-- INCR was carried out within two minutes after the minute of the key has begun. -/
def Increment.InTime (inc : Increment) : Prop := inc.time < 60 * (minuteOf inc.read + 2)

variable (userOf : ι → String)

/-- So many calls of the user have incremented the counter of the minute. -/
def Backed (increment? : ι → Option Increment) (user : String) (minute count : Nat) : Prop :=
  ∃ calls : Finset ι, calls.card = count ∧ ∀ i ∈ calls, userOf i = user ∧
    ∃ inc, increment? i = some inc ∧ minuteOf inc.read = minute

/-- What holds between any two statements -/
structure Counting (s : State ι) : Prop where
  read : ∀ i t, s.phase i = .incr t → t ≤ s.now
  counted : ∀ i inc, s.increment? i = some inc → inc.read ≤ s.now ∧ 1 ≤ inc.count ∧
    Backed userOf s.increment? (userOf i) (minuteOf inc.read) inc.count
  lives : ∀ u t c e, s.redis (rpmKey u t) = some c → c.expiresAt = some e →
    60 * (minuteOf t + 2) ≤ e
  backed : ∀ u t c, s.redis (rpmKey u t) = some c →
    Backed userOf s.increment? u (minuteOf t) c.count
  below : ∀ i inc, s.increment? i = some inc → s.now < 60 * (minuteOf inc.read + 2) →
    ∃ c, s.redis (rpmKey (userOf i) inc.read) = some c ∧ inc.count ≤ c.count
  distinct : ∀ i j inc inc', s.increment? i = some inc → s.increment? j = some inc' → i ≠ j →
    userOf i = userOf j → minuteOf inc.read = minuteOf inc'.read → inc.InTime → inc'.InTime →
      inc.count ≠ inc'.count
  passed : ∀ i inc limit, s.phase i = .passed inc limit → inc.count ≤ limit
  refused : ∀ i inc limit, s.phase i = .refused inc limit → limit < inc.count

variable {userOf} {s : State ι} {i : ι}

omit [DecidableEq ι] in
theorem counting_start (now : Nat) : Counting userOf (State.start now : State ι) where
  read := fun _ _ h => by cases h
  counted := fun _ _ h => by cases h
  lives := fun _ _ _ _ h => by cases h
  backed := fun _ _ _ h => by cases h
  below := fun _ _ h => by cases h
  distinct := fun _ _ _ _ h => by cases h
  passed := fun _ _ _ h => by cases h
  refused := fun _ _ _ h => by cases h

omit [DecidableEq ι] in
theorem Counting.tick (h : Counting userOf s) (seconds : Nat) :
    Counting userOf { s with now := s.now + seconds } where
  read := fun i t hi => (h.read i t hi).trans (Nat.le_add_right _ _)
  counted := fun i inc hi =>
    ⟨(h.counted i inc hi).1.trans (Nat.le_add_right _ _), (h.counted i inc hi).2⟩
  lives := h.lives
  backed := h.backed
  below := fun i inc hi hlt => h.below i inc hi (by simp only at hlt; omega)
  distinct := h.distinct
  passed := h.passed
  refused := h.refused

/-- What a phase may be changed to that adds nothing to a counter -/
structure Relabels (s : State ι) (i : ι) (phase : Phase) : Prop where
  increment : phase.increment? = (s.phase i).increment?
  read : ∀ t, phase = .incr t → t ≤ s.now
  passed : ∀ inc limit, phase = .passed inc limit → inc.count ≤ limit
  refused : ∀ inc limit, phase = .refused inc limit → limit < inc.count

theorem increment?_set {phase : Phase} (h : phase.increment? = (s.phase i).increment?) :
    (s.set i phase).increment? = s.increment? := by
  funext j
  by_cases hj : j = i
  · subst hj
    simp [State.increment?, State.set, h]
  · simp [State.increment?, State.set, hj]

theorem set_cases {phase : Phase} {P : ι → Phase → Prop} (hi : P i phase)
    (h : ∀ j, P j (s.phase j)) (j : ι) : P j ((s.set i phase).phase j) := by
  by_cases hj : j = i
  · subst hj
    simpa [State.set] using hi
  · simpa [State.set, hj] using h j

theorem Counting.relabel (h : Counting userOf s) {phase : Phase} (hphase : Relabels s i phase) :
    Counting userOf (s.set i phase) := by
  have hsame := increment?_set hphase.increment
  refine ⟨?_, ?_, h.lives, ?_, ?_, ?_, ?_, ?_⟩
  · exact set_cases (P := fun _ p => ∀ t, p = .incr t → t ≤ s.now) hphase.read h.read
  · rw [hsame]
    exact h.counted
  · rw [hsame]
    exact h.backed
  · rw [hsame]
    exact h.below
  · rw [hsame]
    exact h.distinct
  · exact set_cases (P := fun _ p => ∀ inc limit, p = .passed inc limit → inc.count ≤ limit)
      hphase.passed h.passed
  · exact set_cases (P := fun _ p => ∀ inc limit, p = .refused inc limit → limit < inc.count)
      hphase.refused h.refused

omit [DecidableEq ι] in
/-- EXPIRE changes nothing but when the counter expires. -/
theorem expired_cases (key key' : String) : s.expired key key' = s.redis key' ∨
    ∃ c, key' = key ∧ s.redis key = some c ∧
      s.expired key key' = some { c with expiresAt := some (s.now + rpmKeyTtl) } := by
  cases hlook : s.look key with
  | none => exact .inl (by rw [State.expired, hlook])
  | some c =>
    by_cases hkey : key' = key
    · subst hkey
      refine .inr ⟨c, rfl, (Option.filter_eq_some_iff.mp hlook).1, ?_⟩
      rw [State.expired, hlook]
      exact Function.update_self ..
    · refine .inl ?_
      rw [State.expired, hlook]
      exact Function.update_of_ne hkey _ _

omit [DecidableEq ι] in
theorem Counting.expire (h : Counting userOf s) {inc : Increment}
    (hi : s.increment? i = some inc) :
    Counting userOf { s with redis := s.expired (rpmKey (userOf i) inc.read) } := by
  refine ⟨h.read, h.counted, ?_, ?_, ?_, h.distinct, h.passed, h.refused⟩
  · intro u t c e hc he
    rcases expired_cases (s := s) (rpmKey (userOf i) inc.read) (rpmKey u t) with
      hsame | ⟨c', hkey, -, hnew⟩
    · exact h.lives u t c e (hsame ▸ hc) he
    · -- the counter of the minute gets two minutes from a time that is not before the minute
      simp only [hnew, Option.some.injEq] at hc
      subst hc
      cases he
      have hread := (h.counted i inc hi).1
      rw [(rpmKey_inj.mp hkey).2]
      simp only [minuteOf, rpmKeyTtl]
      omega
  · intro u t c hc
    rcases expired_cases (s := s) (rpmKey (userOf i) inc.read) (rpmKey u t) with
      hsame | ⟨c', hkey, hold, hnew⟩
    · exact h.backed u t c (hsame ▸ hc)
    · simp only [hnew, Option.some.injEq] at hc
      subst hc
      exact h.backed u t c' (hkey ▸ hold)
  · intro j inc' hj hlt
    obtain ⟨c, hc, hle⟩ := h.below j inc' hj hlt
    rcases expired_cases (s := s) (rpmKey (userOf i) inc.read) (rpmKey (userOf j) inc'.read) with
      hsame | ⟨c', hkey, hold, hnew⟩
    · exact ⟨c, hsame.trans hc, hle⟩
    · rw [hkey, hold, Option.some.injEq] at hc
      subst hc
      exact ⟨_, hnew, hle⟩

omit [DecidableEq ι] in
theorem Backed.mono {increment? increment?' : ι → Option Increment} {user : String}
    {minute count : Nat} (h : Backed userOf increment? user minute count)
    (hsub : ∀ j inc, increment? j = some inc → increment?' j = some inc) :
    Backed userOf increment?' user minute count := by
  obtain ⟨calls, hcard, hcalls⟩ := h
  refine ⟨calls, hcard, fun j hj => ?_⟩
  obtain ⟨huser, inc, hinc, hminute⟩ := hcalls j hj
  exact ⟨huser, inc, hsub j inc hinc, hminute⟩

omit [DecidableEq ι] in
/-- What `INCR` makes of the counter: one more than it was, or one. -/
theorem increased_cases (key : String) :
    (∃ c, s.redis key = some c ∧ s.increased key = { c with count := c.count + 1 }) ∨
      s.increased key = ⟨1, none⟩ := by
  unfold State.increased
  split
  · rename_i c hlook
    exact .inl ⟨c, (Option.filter_eq_some_iff.mp hlook).1, rfl⟩
  · exact .inr rfl

omit [DecidableEq ι] in
/-- **Within its two minutes a counter only grows.** -/
theorem Counting.lt_increased (h : Counting userOf s) {j : ι} {inc : Increment} {u : String}
    {t : Nat} (hj : s.increment? j = some inc) (huser : userOf j = u)
    (hminute : minuteOf inc.read = minuteOf t) (hlt : s.now < 60 * (minuteOf t + 2)) :
    inc.count < (s.increased (rpmKey u t)).count := by
  obtain ⟨c, hc, hle⟩ := h.below j inc hj (hminute ▸ hlt)
  rw [rpmKey_inj.mpr ⟨huser, hminute⟩] at hc
  have hlook : s.look (rpmKey u t) = some c := by
    refine Option.filter_eq_some_iff.mpr ⟨hc, ?_⟩
    cases he : c.expiresAt with
    | none => rfl
    | some e =>
      have hlives := h.lives u t c e hc he
      simp only [Option.all_some, decide_eq_true_eq]
      omega
  rw [State.increased, hlook]
  exact Nat.lt_succ_of_le hle

/-- The state after `INCR` -/
def State.incremented (s : State ι) (i : ι) (key : String) (phase : Phase) : State ι :=
  { s with redis := Function.update s.redis key (some (s.increased key)) }.set i phase

section

variable {t : Nat} {phase : Phase}

theorem increment?_incremented (key : String) (hold : s.increment? i = none) {j : ι}
    {inc : Increment} : (s.incremented i key phase).increment? j = some inc ↔
      s.increment? j = some inc ∨ j = i ∧ phase.increment? = some inc := by
  by_cases hj : j = i
  · subst hj
    have hnew : (s.incremented j key phase).increment? j = phase.increment? := by
      simp [State.incremented, State.set, State.increment?]
    rw [hnew, hold]
    simp
  · simp [State.incremented, State.set, State.increment?, hj]

/-- The counter is backed by one call more. -/
theorem Counting.backed_increased (h : Counting userOf s) (hold : s.increment? i = none)
    {inc : Increment} (hphase : phase.increment? = some inc) (hread : inc.read = t) :
    Backed userOf (s.incremented i (rpmKey (userOf i) t) phase).increment? (userOf i) (minuteOf t)
      (s.increased (rpmKey (userOf i) t)).count := by
  have hnew : (s.incremented i (rpmKey (userOf i) t) phase).increment? i = some inc :=
    (increment?_incremented _ hold).mpr (.inr ⟨rfl, hphase⟩)
  rcases increased_cases (s := s) (rpmKey (userOf i) t) with ⟨c, hc, hinc⟩ | hinc
  · obtain ⟨calls, hcard, hcalls⟩ := h.backed (userOf i) t c hc
    have hmem : i ∉ calls := by
      intro hmem
      obtain ⟨-, inc', hinc', -⟩ := hcalls i hmem
      rw [hold] at hinc'
      cases hinc'
    refine ⟨insert i calls, ?_, fun j hj => ?_⟩
    · rw [Finset.card_insert_of_notMem hmem, hcard, hinc]
    · rcases Finset.mem_insert.mp hj with rfl | hj
      · exact ⟨rfl, inc, hnew, hread ▸ rfl⟩
      · obtain ⟨huser, inc', hinc', hminute⟩ := hcalls j hj
        exact ⟨huser, inc', (increment?_incremented _ hold).mpr (.inl hinc'), hminute⟩
  · refine ⟨{i}, by rw [hinc]; rfl, fun j hj => ?_⟩
    rw [Finset.mem_singleton.mp hj]
    exact ⟨rfl, inc, hnew, hread ▸ rfl⟩

/-- **One INCR that is carried out**, by a call that has read the clock -/
theorem Counting.incr (h : Counting userOf s) (hi : s.phase i = .incr t) {inc : Increment}
    (hinc : inc = ⟨t, s.now, (s.increased (rpmKey (userOf i) t)).count⟩)
    (hphase : phase.increment? = some inc) (hread : ∀ t, phase ≠ .incr t)
    (hpassed : ∀ inc limit, phase ≠ .passed inc limit)
    (hrefused : ∀ inc limit, phase ≠ .refused inc limit) :
    Counting userOf (s.incremented i (rpmKey (userOf i) t) phase) := by
  have hold : s.increment? i = none := by rw [State.increment?, hi]; rfl
  have hbacked := h.backed_increased hold hphase (by rw [hinc])
  have hnow := h.read i t hi
  have hsub : ∀ j inc', s.increment? j = some inc' →
      (s.incremented i (rpmKey (userOf i) t) phase).increment? j = some inc' :=
    fun j inc' hj => (increment?_incremented _ hold).mpr (.inl hj)
  have hcases : ∀ j inc', (s.incremented i (rpmKey (userOf i) t) phase).increment? j = some inc' →
      s.increment? j = some inc' ∨ j = i ∧ inc' = inc := by
    intro j inc' hj
    refine ((increment?_incremented _ hold).mp hj).imp_right fun hnew => ⟨hnew.1, ?_⟩
    rw [hphase] at hnew
    exact (Option.some.inj hnew.2).symm
  have hredis : ∀ key c, (s.incremented i (rpmKey (userOf i) t) phase).redis key = some c →
      key ≠ rpmKey (userOf i) t ∧ s.redis key = some c ∨
        key = rpmKey (userOf i) t ∧ c = s.increased (rpmKey (userOf i) t) := by
    intro key c hc
    by_cases hkey : key = rpmKey (userOf i) t
    · subst hkey
      simp only [State.incremented, State.set, Function.update_self, Option.some.injEq] at hc
      exact .inr ⟨rfl, hc.symm⟩
    · simp only [State.incremented, State.set, Function.update_of_ne hkey] at hc
      exact .inl ⟨hkey, hc⟩
  refine ⟨?_, ?_, ?_, ?_, ?_, ?_, ?_, ?_⟩
  · exact set_cases (P := fun _ p => ∀ t', p = .incr t' → t' ≤ s.now)
      (fun t' ht' => absurd ht' (hread t')) h.read
  · intro j inc' hj
    rcases hcases j inc' hj with hj | ⟨rfl, rfl⟩
    · obtain ⟨hle, hone, hback⟩ := h.counted j inc' hj
      exact ⟨hle, hone, hback.mono hsub⟩
    · subst hinc
      refine ⟨hnow, ?_, hbacked⟩
      rcases increased_cases (s := s) (rpmKey (userOf j) t) with ⟨c, -, hc⟩ | hc
      · rw [hc]
        exact Nat.le_add_left _ _
      · rw [hc]
  · intro u t' c e hc he
    rcases hredis _ c hc with ⟨-, hc⟩ | ⟨hkey, rfl⟩
    · exact h.lives u t' c e hc he
    · rcases increased_cases (s := s) (rpmKey (userOf i) t) with ⟨c, hc, hnew⟩ | hnew
      · rw [hnew] at he
        exact h.lives u t' c e (hkey ▸ hc) he
      · rw [hnew] at he
        cases he
  · intro u t' c hc
    rcases hredis _ c hc with ⟨-, hc⟩ | ⟨hkey, rfl⟩
    · exact (h.backed u t' c hc).mono hsub
    · obtain ⟨rfl, hminute⟩ := rpmKey_inj.mp hkey
      rwa [hminute]
  · intro j inc' hj hlt
    rcases hcases j inc' hj with hj | ⟨rfl, rfl⟩
    · obtain ⟨c, hc, hle⟩ := h.below j inc' hj hlt
      by_cases hkey : rpmKey (userOf j) inc'.read = rpmKey (userOf i) t
      · obtain ⟨huser, hminute⟩ := rpmKey_inj.mp hkey
        refine ⟨s.increased (rpmKey (userOf i) t), ?_, ?_⟩
        · rw [hkey]
          exact Function.update_self ..
        · exact (h.lt_increased hj huser hminute (hminute ▸ hlt)).le
      · exact ⟨c, (Function.update_of_ne hkey _ _).trans hc, hle⟩
    · subst hinc
      exact ⟨_, Function.update_self .., le_refl _⟩
  · intro j k inc₁ inc₂ hj hk hne huser hminute htime₁ htime₂
    rcases hcases j inc₁ hj with hold₁ | ⟨rfl, rfl⟩
    · rcases hcases k inc₂ hk with hold₂ | ⟨rfl, rfl⟩
      · exact h.distinct j k inc₁ inc₂ hold₁ hold₂ hne huser hminute htime₁ htime₂
      · subst hinc
        exact (h.lt_increased hold₁ huser hminute htime₂).ne
    · rcases hcases k inc₂ hk with hold₂ | ⟨rfl, rfl⟩
      · subst hinc
        exact (h.lt_increased hold₂ huser.symm hminute.symm htime₁).ne'
      · exact absurd rfl hne
  · exact set_cases (P := fun _ p => ∀ inc' limit, p = .passed inc' limit → inc'.count ≤ limit)
      (fun inc' limit hp => absurd hp (hpassed inc' limit)) h.passed
  · exact set_cases (P := fun _ p => ∀ inc' limit, p = .refused inc' limit → limit < inc'.count)
      (fun inc' limit hp => absurd hp (hrefused inc' limit)) h.refused

end

/-- **One step** keeps what the counters stand for. -/
theorem Counting.step (h : Counting userOf s) {a : Action ι} {s' : State ι}
    (hs : (enforceModel userOf).step s a = some s') : Counting userOf s' := by
  cases a with
  | tick seconds =>
    cases hs
    exact h.tick seconds
  | readClock i =>
    simp only [enforceModel] at hs
    split at hs
    · rename_i hi
      cases hs
      refine h.relabel ⟨by rw [hi]; rfl, fun t ht => ?_, fun _ _ hp => ?_, fun _ _ hp => ?_⟩
      · cases ht
        exact le_refl _
      · cases hp
      · cases hp
    · cases hs
  | incr i fault =>
    simp only [enforceModel] at hs
    split at hs
    · rename_i t hi
      split at hs
      · cases hs
        refine h.incr hi rfl ?_ ?_ ?_ ?_
        · split <;> rfl
        · split <;> exact fun _ hp => by cases hp
        · split <;> exact fun _ _ hp => by cases hp
        · split <;> exact fun _ _ hp => by cases hp
      · cases hs
        refine h.relabel ⟨by rw [hi]; rfl, fun _ hp => ?_, fun _ _ hp => ?_, fun _ _ hp => ?_⟩
        · cases hp
        · cases hp
        · cases hp
      · cases hs
        exact h.incr hi rfl rfl (fun _ hp => by cases hp) (fun _ _ hp => by cases hp)
          fun _ _ hp => by cases hp
    · cases hs
  | expire i fault =>
    simp only [enforceModel] at hs
    split at hs
    · rename_i inc hi
      have hinc : s.increment? i = some inc := by rw [State.increment?, hi]; rfl
      have hrelabels : ∀ (redis : String → Option Counter) (phase : Phase),
          phase = .compare inc ∨ phase = .failedOpen (some inc) →
            Relabels { s with redis } i phase := by
        rintro redis phase (rfl | rfl)
        · exact ⟨by rw [hi]; rfl, fun _ hp => (by cases hp), fun _ _ hp => (by cases hp),
            fun _ _ hp => (by cases hp)⟩
        · exact ⟨by rw [hi]; rfl, fun _ hp => (by cases hp), fun _ _ hp => (by cases hp),
            fun _ _ hp => (by cases hp)⟩
      split at hs
      · cases hs
        exact (h.expire hinc).relabel (hrelabels _ _ (.inl rfl))
      · cases hs
        exact h.relabel (hrelabels _ _ (.inr rfl))
      · cases hs
        exact (h.expire hinc).relabel (hrelabels _ _ (.inr rfl))
    · cases hs
  | compare i limit =>
    simp only [enforceModel] at hs
    split at hs
    · rename_i inc hi
      cases hs
      refine h.relabel ⟨?_, fun t ht => ?_, fun inc' limit' hp => ?_, fun inc' limit' hp => ?_⟩
      · rw [hi]
        split <;> rfl
      · split at ht <;> cases ht
      · split at hp
        · cases hp
        · rename_i hle
          cases hp
          exact Int.not_lt.mp hle
      · split at hp
        · rename_i hlt
          cases hp
          exact hlt
        · cases hp
    · cases hs
  | die i =>
    simp only [enforceModel] at hs
    split at hs
    · cases hs
      exact h.relabel ⟨rfl, fun _ hp => (by cases hp), fun _ _ hp => (by cases hp),
        fun _ _ hp => (by cases hp)⟩
    · cases hs

theorem counting_reach {now : Nat} (hs : (enforceModel userOf).Reach Lts.Anything (.start now) s) :
    Counting userOf s :=
  hs.invariant (counting_start now) fun _ _ _ h _ hstep => h.step hstep

variable (userOf) in
/-- The call was counted in the minute, in time, compared, and let through under a limit of at most
    `limit`. -/
def LetThrough (s : State ι) (user : String) (minute limit : Nat) (i : ι) : Prop :=
  userOf i = user ∧ ∃ (inc : Increment) (limit' : Int), s.phase i = .passed inc limit' ∧
    minuteOf inc.read = minute ∧ inc.InTime ∧ limit' ≤ limit

/-- **The limit holds.** Of the calls of a user that are counted in one minute, reach Redis in time
    and are compared, no more are let through than their limit allows; and a call is refused only
    when more calls of its own user have been counted in its own minute than its limit allows. -/
theorem calls_limited {now : Nat} (hs : (enforceModel userOf).Reach Lts.Anything (.start now) s) :
    (∀ user minute limit (calls : Finset ι),
      (∀ i ∈ calls, LetThrough userOf s user minute limit i) → calls.card ≤ limit) ∧
    ∀ i inc limit, s.phase i = .refused inc limit → ∃ calls : Finset ι, limit < calls.card ∧
      ∀ j ∈ calls, userOf j = userOf i ∧
        ∃ inc', s.increment? j = some inc' ∧ minuteOf inc'.read = minuteOf inc.read := by
  have h := counting_reach hs
  refine ⟨fun user minute limit calls hcalls => ?_, fun i inc limit hi => ?_⟩
  · -- the counts are different numbers from one up to the limit
    have hcount : ∀ i ∈ calls, ∃ inc, s.increment? i = some inc ∧ inc.count ≤ limit ∧
        minuteOf inc.read = minute ∧ inc.InTime := by
      intro i hi
      obtain ⟨-, inc, limit', hphase, hminute, htime, hle⟩ := hcalls i hi
      have hpassed := h.passed i inc limit' hphase
      exact ⟨inc, by rw [State.increment?, hphase]; rfl, by omega, hminute, htime⟩
    have hcard := Finset.card_le_card_of_injOn (s := calls) (t := Finset.Icc 1 limit)
      (fun i => ((s.increment? i).map Increment.count).getD 0) (fun i hi => ?_) ?_
    · rwa [Nat.card_Icc, Nat.add_sub_cancel] at hcard
    · obtain ⟨inc, hinc, hle, -, -⟩ := hcount i hi
      simp only [hinc, Option.map_some, Option.getD_some, Finset.coe_Icc, Set.mem_Icc]
      exact ⟨(h.counted i inc hinc).2.1, hle⟩
    · intro i hi j hj heq
      obtain ⟨inc, hinc, -, hminute, htime⟩ := hcount i hi
      obtain ⟨inc', hinc', -, hminute', htime'⟩ := hcount j hj
      simp only [hinc, hinc', Option.map_some, Option.getD_some] at heq
      by_contra hne
      exact h.distinct i j inc inc' hinc hinc' hne ((hcalls i hi).1.trans (hcalls j hj).1.symm)
        (hminute.trans hminute'.symm) htime htime' heq
  · have hinc : s.increment? i = some inc := by rw [State.increment?, hi]; rfl
    obtain ⟨-, -, calls, hcard, hcalls⟩ := h.counted i inc hinc
    exact ⟨calls, by rw [hcard]; exact h.refused i inc limit hi, hcalls⟩

/-- Two calls in one minute, with a limit of one -/
def twoCalls : List (Action Bool) :=
  [.readClock false, .incr false none, .expire false none, .compare false 1, .tick 7,
    .readClock true, .incr true none, .compare true 1]

/-- The second one is refused because the first one was counted. -/
theorem calls_limited_second : ∃ s : State Bool,
    (enforceModel fun _ => "u").run twoCalls (.start 0) = some s ∧
      ∃ calls : Finset Bool, (1 : Int) < calls.card ∧ ∀ j ∈ calls,
        ∃ inc', s.increment? j = some inc' ∧ minuteOf inc'.read = minuteOf 7 := by
  have hrun : ∃ s : State Bool, (enforceModel fun _ => "u").run twoCalls (.start 0) = some s ∧
      s.phase true = .refused ⟨7, 7, 2⟩ 1 := ⟨_, rfl, rfl⟩
  obtain ⟨s, hs, hphase⟩ := hrun
  have hreach : (enforceModel fun _ => "u").Reach Lts.Anything (.start 0) s :=
    Lts.Reach.start.of_run (fun _ _ _ => trivial) hs
  obtain ⟨calls, hcard, hcalls⟩ := (calls_limited hreach).2 true _ _ hphase
  exact ⟨s, hs, calls, hcard, fun j hj => (hcalls j hj).2⟩

end RateLimit

end HyChat
