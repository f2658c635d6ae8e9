import Sag.Oauth.Code
import Sag.Oauth.Clientauth
import Sag.Session
import Sag.Store.Limits

/-!
# The store of Durable Objects

`StateGuard` of the Cloudflare adapter, behind `createDurableObjectStore`. There is one object
for each key, it handles one request at a time, and its alarm empties it. Time is counted in
milliseconds here, as the objects count it, while the callers count whole seconds.

An alarm goes off at the instant it was set for, or at any later one. So an object keeps what
it has recorded up to its deadline and not beyond (`Run.claimed`, `Run.counted`).
-/

namespace Sag

/-- What one object has stored, and the instant its alarm is set for. -/
structure StateGuard where
  claimed : Option Nat
  count : Nat
  alarm : Option Rat

inductive StateOp where
  | claim
  | has
  | increment
  deriving DecidableEq

inductive StateAnswer where
  | fresh (fresh : Bool)
  | claimed (claimed : Bool)
  | count (count : Nat)
  deriving DecidableEq

namespace StateGuard

/-- What `deleteAll` leaves. -/
def empty : StateGuard := ⟨none, 0, none⟩

/-- `Math.min(Math.max(Number(ttlSeconds) || 120, 60), 366 * 86400)`. -/
def ttl (ttlSeconds : Rat) : Rat := min (max (if ttlSeconds = 0 then 120 else ttlSeconds) 60) (366 * 86400)

/-- `Date.now() + ttl * 1000`, in doubles. -/
def deadline (now : Nat) (ttlSeconds : Rat) : Rat := Binary64.round (now + Binary64.round (ttl ttlSeconds * 1000))

/-- Is there a claim, and not of the instant zero? -/
def isClaimed (g : StateGuard) : Bool := g.claimed.any (· ≠ 0)

/-- One request, handled at the millisecond `now`. -/
def fetch (now : Nat) (op : StateOp) (ttlSeconds : Rat) (g : StateGuard) : StateGuard × StateAnswer :=
  match op with
  | .has => (g, .claimed g.isClaimed)
  | .increment =>
    ({ g with
        count := g.count + 1
        alarm := if g.count = 0 then some (deadline now ttlSeconds) else g.alarm }, .count (g.count + 1))
  | .claim =>
    if g.isClaimed then (g, .fresh false)
    else ({ g with claimed := some now, alarm := some (deadline now ttlSeconds) }, .fresh true)

end StateGuard

/-- The objects of a deployment, by the key that addresses them. -/
structure Objects where
  objects : JsString → StateGuard
  clock : Nat

namespace Objects

def put (w : Objects) (key : JsString) (g : StateGuard) : Objects :=
  { w with objects := fun k => if k = key then g else w.objects k }

@[simp] theorem put_self (w : Objects) (key : JsString) (g : StateGuard) : (w.put key g).objects key = g := if_pos rfl

@[simp] theorem put_clock (w : Objects) (key : JsString) (g : StateGuard) : (w.put key g).clock = w.clock := rfl

theorem put_of_ne (w : Objects) {key k : JsString} (h : k ≠ key) (g : StateGuard) :
    (w.put key g).objects k = w.objects k := if_neg h

/-- A request to the object of a key. -/
def call (w : Objects) (key : JsString) (op : StateOp) (ttlSeconds : Rat) : Objects × StateAnswer :=
  let (g, answer) := (w.objects key).fetch w.clock op ttlSeconds
  (w.put key g, answer)

/-- Would a claim of the key be refused, and is it found? -/
def Refuses (w : Objects) (key : JsString) : Prop :=
  (w.call key .has 0).2 = .claimed true ∧ ∀ ttlSeconds, (w.call key .claim ttlSeconds).2 = .fresh false

theorem refuses_iff {w : Objects} {key : JsString} : w.Refuses key ↔ (w.objects key).isClaimed = true := by
  unfold Refuses call StateGuard.fetch
  constructor
  · intro h
    exact StateAnswer.claimed.inj h.1
  · intro h
    refine ⟨congrArg StateAnswer.claimed h, fun ttlSeconds => ?_⟩
    dsimp only
    rw [if_pos h]

end Objects

/-! ## Keys -/

/-- What the program claims. -/
inductive ClaimKey (rt : Runtime) : JsString → Prop where
  | assertion (clientId jti : JsString) : ClaimKey rt (assertionKey rt clientId jti)
  | revocation (sid : JsString) : ClaimKey rt (revocationKey sid)
  | code (jti : JsString) : ClaimKey rt (codeClaimKey jti)

/-- What the program counts. -/
inductive CounterKey : JsString → Prop where
  | send (tag : JsString) (bucket : Nat) : CounterKey (sendKey tag bucket)
  | day (tag : JsString) (bucket : Nat) : CounterKey (dayKey tag bucket)
  | network (factor : Factor) (tag : JsString) (bucket : Nat) : CounterKey (networkKey factor tag bucket)
  | attempt (factor : Factor) (tag : JsString) (bucket : Nat) : CounterKey (attemptKey factor tag bucket)

/-- Nothing is both. -/
theorem ClaimKey.not_counter {rt : Runtime} {key : JsString} (h : ClaimKey rt key) : ¬ CounterKey key := by
  have hclaim : key.head? = some 99 ∨ key.head? = some 115 ∨ key.head? = some 97 := by
    cases h with
    | assertion clientId jti => exact Or.inl rfl
    | revocation sid => exact Or.inr (Or.inl rfl)
    | code jti => exact Or.inr (Or.inr rfl)
  intro hcounter
  have hhead : key.head? = some 111 ∨ key.head? = some 108 := by
    cases hcounter with
    | send tag bucket => exact Or.inl rfl
    | day tag bucket => exact Or.inl rfl
    | network factor tag bucket => exact Or.inr rfl
    | attempt factor tag bucket => exact Or.inr rfl
  rcases hhead with hhead | hhead
  · rw [hhead] at hclaim
    revert hclaim
    decide
  · rw [hhead] at hclaim
    revert hclaim
    decide

/-! ## Runs -/

inductive ObjectEvent where
  | wait (t : Nat)
  | call (key : JsString) (op : StateOp) (ttlSeconds : Rat)
  | alarm (key : JsString)

/-- One thing that happens: time passes, an object handles a request, or an alarm goes off. -/
inductive Objects.Step (rt : Runtime) (w : Objects) : ObjectEvent → Objects → Prop where
  | wait {t : Nat} (h : w.clock ≤ t) : Objects.Step rt w (.wait t) { w with clock := t }
  | claim {key : JsString} (h : ClaimKey rt key) (ttlSeconds : Rat) :
      Objects.Step rt w (.call key .claim ttlSeconds) (w.call key .claim ttlSeconds).1
  | has {key : JsString} (h : ClaimKey rt key) (ttlSeconds : Rat) :
      Objects.Step rt w (.call key .has ttlSeconds) (w.call key .has ttlSeconds).1
  | increment {key : JsString} (h : CounterKey key) (ttlSeconds : Rat) :
      Objects.Step rt w (.call key .increment ttlSeconds) (w.call key .increment ttlSeconds).1
  | alarm {key : JsString} {a : Rat} (h : (w.objects key).alarm = some a) (hdue : a ≤ w.clock) :
      Objects.Step rt w (.alarm key) (w.put key .empty)

/-- What happens in a while, in order. -/
inductive Objects.Run (rt : Runtime) (w : Objects) : List ObjectEvent → Objects → Prop where
  | refl : Objects.Run rt w [] w
  | snoc {events : List ObjectEvent} {e : ObjectEvent} {w' w'' : Objects} (h : Objects.Run rt w events w')
      (hstep : w'.Step rt e w'') : Objects.Run rt w (events ++ [e]) w''

/-- How often a key has been counted. -/
def increments (key : JsString) (events : List ObjectEvent) : Nat :=
  events.countP fun
    | .call k .increment _ => k = key
    | _ => false

namespace Objects

variable {rt : Runtime} {w w' : Objects} {key : JsString} {events : List ObjectEvent} {deadline : Rat}

/-- What one event does to one object. -/
inductive Change (key : JsString) (w : Objects) : ObjectEvent → StateGuard → Prop where
  | same {e : ObjectEvent} (h : increments key [e] = 0) : Change key w e (w.objects key)
  | fetched (op : StateOp) (ttlSeconds : Rat) :
      Change key w (.call key op ttlSeconds) ((w.objects key).fetch w.clock op ttlSeconds).1
  | emptied {a : Rat} (h : (w.objects key).alarm = some a) (hdue : a ≤ w.clock) : Change key w (.alarm key) .empty

/-- Time does not go back, and an event changes one object. -/
theorem Step.change {e : ObjectEvent} (h : w.Step rt e w') (key : JsString) :
    w.clock ≤ w'.clock ∧ Change key w e (w'.objects key) := by
  have hother : ∀ {k : JsString} {op : StateOp} {ttlSeconds : Rat}, key ≠ k →
      Change key w (.call k op ttlSeconds) ((w.call k op ttlSeconds).1.objects key) := by
    intro k op ttlSeconds hne
    rw [call, put_of_ne w hne]
    refine .same ?_
    cases op with
    | increment =>
      show List.countP _ [_] = 0
      rw [List.countP_singleton]
      exact if_neg fun heq => hne (of_decide_eq_true heq).symm
    | _ => rfl
  have hcall : ∀ {k : JsString} {op : StateOp} {ttlSeconds : Rat}, w.clock ≤ (w.call k op ttlSeconds).1.clock ∧
      Change key w (.call k op ttlSeconds) ((w.call k op ttlSeconds).1.objects key) := by
    intro k op ttlSeconds
    refine ⟨Nat.le_refl _, ?_⟩
    by_cases heq : key = k
    · subst heq
      rw [call, put_self]
      exact .fetched op ttlSeconds
    · exact hother heq
  cases h with
  | wait h => exact ⟨h, .same rfl⟩
  | claim _ ttlSeconds => exact hcall
  | has _ ttlSeconds => exact hcall
  | increment _ ttlSeconds => exact hcall
  | @alarm k a h hdue =>
    refine ⟨Nat.le_refl _, ?_⟩
    by_cases heq : key = k
    · subst heq
      rw [put_self]
      exact .emptied h hdue
    · rw [put_of_ne w heq]
      exact .same rfl

/-- A claim is there until the deadline. -/
theorem Run.claimed (hkey : ClaimKey rt key) {g : StateGuard} (hg : g.isClaimed = true)
    (halarm : g.alarm = some deadline) (hw : w.objects key = g) (h : w.Run rt events w') :
    w'.objects key = g ∨ deadline ≤ w'.clock := by
  induction h with
  | refl => exact Or.inl hw
  | @snoc events e w' w'' h hstep ih =>
    obtain ⟨hclock, hchange⟩ := hstep.change key
    rcases ih with ih | ih
    · generalize hafter : w''.objects key = after at hchange
      cases hchange with
      | same _ => exact Or.inl ih
      | fetched op ttlSeconds =>
        cases op with
        | claim =>
          left
          rw [ih, StateGuard.fetch]
          exact congrArg Prod.fst (if_pos hg)
        | has => exact Or.inl ih
        | increment =>
          cases hstep with
          | increment hcounter _ => exact absurd hcounter hkey.not_counter
      | @emptied a ha hdue =>
        rw [ih, halarm] at ha
        right
        rw [Option.some.inj ha]
        exact hdue.trans (by exact_mod_cast hclock)
    · exact Or.inr (ih.trans (by exact_mod_cast hclock))

/-- A counter counts on until the deadline, which does not move. -/
theorem Run.counted (hkey : CounterKey key) {g : StateGuard} (hg : 0 < g.count) (halarm : g.alarm = some deadline)
    (hw : w.objects key = g) (h : w.Run rt events w') :
    w'.objects key = { g with count := g.count + increments key events } ∨ deadline ≤ w'.clock := by
  induction h with
  | refl => exact Or.inl hw
  | @snoc events e w' w'' h hstep ih =>
    obtain ⟨hclock, hchange⟩ := hstep.change key
    have hsum : increments key (events ++ [e]) = increments key events + increments key [e] := List.countP_append
    rcases ih with ih | ih
    · generalize hafter : w''.objects key = after at hchange
      cases hchange with
      | same hzero =>
        left
        rw [hsum, hzero]
        exact ih
      | fetched op ttlSeconds =>
        left
        cases op with
        | increment =>
          have hone : increments key [.call key .increment ttlSeconds] = 1 := by
            show List.countP _ [_] = 1
            rw [List.countP_singleton]
            exact if_pos (decide_eq_true rfl)
          rw [hsum, hone, ih, StateGuard.fetch]
          dsimp only
          rw [if_neg (by omega), Nat.add_assoc]
        | has =>
          rw [hsum]
          exact ih
        | claim =>
          cases hstep with
          | claim hclaim _ => exact absurd hkey hclaim.not_counter
      | @emptied a ha hdue =>
        rw [ih] at ha
        right
        rw [Option.some.inj (halarm.symm.trans ha)]
        exact hdue.trans (by exact_mod_cast hclock)
    · exact Or.inr (ih.trans (by exact_mod_cast hclock))

end Objects

end Sag
