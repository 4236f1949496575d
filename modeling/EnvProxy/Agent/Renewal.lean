-- SUMMARY: The loop that renews the Vault token, and whether it renews every lease before the lease expires.
import EnvProxy.Agent.Backend
import EnvProxy.Library.Overflow

/-!
# Token renewal

The loop sleeps, renews the token, and starts over. How long it sleeps is computed
once, from the lease of the login; the leases that Vault grants later are logged and
not looked at. `renewed_in_time_iff` says for which leases every renewal comes before
the lease in force has expired.

Times are seconds, and a renewal takes no time.
-/

namespace EnvProxy.Vault

/-- The answer of `renew_self`: the granted lease, or the text of an error. -/
abbrev Renewal := Except Str UInt64

/-- `Duration::from_secs(lease_duration * 2 / 3).max(Duration::from_secs(10))`. -/
def renewInterval (profile : Profile) (leaseDuration : UInt64) : Option Nat :=
  (profile.mul UInt64.size leaseDuration.toNat 2).map fun doubled => max (doubled / 3) 10

/-- The loop about to sleep, and the lease in force. -/
structure RenewalLoop where
  now : Nat
  interval : Nat
  granted : Nat
  lease : UInt64

namespace RenewalLoop

/-- When the loop wakes up and renews the token. -/
def attempt (loop : RenewalLoop) : Nat := loop.now + loop.interval

def expiry (loop : RenewalLoop) : Nat := loop.granted + loop.lease.toNat

/-- The lease in force has not expired when the loop renews it. -/
def InTime (loop : RenewalLoop) : Prop := loop.attempt < loop.expiry

instance (loop : RenewalLoop) : Decidable loop.InTime := inferInstanceAs (Decidable (_ < _))

/-- One turn of the loop. A failed renewal is logged. -/
def step (loop : RenewalLoop) : Renewal → RenewalLoop
  | .ok lease => { loop with now := loop.attempt, granted := loop.attempt, lease }
  | .error _ => { loop with now := loop.attempt }

def run (loop : RenewalLoop) (renewals : List Renewal) : RenewalLoop := renewals.foldl step loop

end RenewalLoop

/-- `token_renewal_loop`, entered right after the login; `none` is a panic. -/
def tokenRenewalLoop (profile : Profile) (now : Nat) (leaseDuration : UInt64) : Option RenewalLoop :=
  (renewInterval profile leaseDuration).map fun interval =>
    { now, interval, granted := now, lease := leaseDuration }

/-! ## Runs without a failure -/

namespace RenewalLoop

/-- The last renewal was a success, or there was none yet. -/
def Current (loop : RenewalLoop) : Prop := loop.granted = loop.now

theorem Current.step (loop : RenewalLoop) (lease : UInt64) : (loop.step (.ok lease)).Current := rfl

theorem Current.inTime_iff {loop : RenewalLoop} (h : loop.Current) :
    loop.InTime ↔ loop.interval < loop.lease.toNat := by
  simp only [InTime, attempt, expiry]
  rw [h, Nat.add_lt_add_iff_left]

/-- Every renewal of a run comes in time exactly if every lease of it outlasts the interval. -/
theorem Current.run_inTime_iff {loop : RenewalLoop} (h : loop.Current) (grants : List UInt64) :
    (∀ before, before <+: grants.map .ok → (loop.run before).InTime) ↔
      ∀ lease ∈ loop.lease :: grants, loop.interval < lease.toNat := by
  induction grants generalizing loop with
  | nil =>
    simp only [List.map_nil, List.prefix_nil, forall_eq, List.mem_singleton]
    exact h.inTime_iff
  | cons lease grants ih =>
    have hrest : (∀ before, before <+: grants.map .ok → ((loop.step (.ok lease)).run before).InTime) ↔
        ∀ next ∈ lease :: grants, loop.interval < next.toNat :=
      ih (Current.step loop lease)
    rw [List.forall_mem_cons, ← h.inTime_iff, ← hrest]
    constructor
    · intro hall
      refine ⟨hall [] List.nil_prefix, fun before hbefore => ?_⟩
      exact hall (.ok lease :: before) ((List.prefix_cons_inj _).mpr hbefore)
    · rintro ⟨hfirst, hall⟩ before hbefore
      cases before with
      | nil => exact hfirst
      | cons renewal before =>
        obtain ⟨rfl, hprefix⟩ := List.cons_prefix_cons.mp hbefore
        exact hall before hprefix

end RenewalLoop

/-- The interval is computed without overflow, and after the login and after each of the
    granted leases the next renewal comes before the lease in force has expired. -/
structure Renewed (profile : Profile) (now : Nat) (initial : UInt64) (grants : List UInt64) : Prop where
  exact : profile.mul UInt64.size initial.toNat 2 = some (initial.toNat * 2)
  inTime : ∀ loop, tokenRenewalLoop profile now initial = some loop →
    ∀ before, before <+: grants.map .ok → (loop.run before).InTime

/-- The token stays renewed exactly if the first lease can be doubled and every lease is
    longer than both ten seconds and two thirds of the first. -/
theorem renewed_in_time_iff (profile : Profile) (now : Nat) (initial : UInt64) (grants : List UInt64) :
    Renewed profile now initial grants ↔
      initial.toNat * 2 < UInt64.size ∧
        ∀ lease ∈ initial :: grants, initial.toNat * 2 / 3 < lease.toNat ∧ 10 < lease.toNat := by
  have hpos : 0 < UInt64.size := by decide
  have hinTime : ∀ {product : Nat}, profile.mul UInt64.size initial.toNat 2 = some product →
      ((∀ loop, tokenRenewalLoop profile now initial = some loop →
          ∀ before, before <+: grants.map .ok → (loop.run before).InTime) ↔
        ∀ lease ∈ initial :: grants, product / 3 < lease.toNat ∧ 10 < lease.toNat) := by
    intro product hproduct
    have hcurrent : ({ now, interval := max (product / 3) 10, granted := now, lease := initial } :
        RenewalLoop).Current := rfl
    simp only [tokenRenewalLoop, renewInterval, hproduct, Option.map_some, Option.some.injEq,
      forall_eq', ← Nat.max_lt]
    exact hcurrent.run_inTime_iff grants
  constructor
  · rintro ⟨hexact, hrun⟩
    exact ⟨(profile.mul_eq_product_iff hpos).mp hexact, (hinTime hexact).mp hrun⟩
  · rintro ⟨hlt, hleases⟩
    have hexact := (profile.mul_eq_product_iff hpos).mpr hlt
    exact ⟨hexact, (hinTime hexact).mpr hleases⟩

/-- A token of one hour that can be renewed for ten minutes only: the renewals stay forty
    minutes apart. -/
theorem renewal_too_late : ¬ Renewed .release 0 3600 [600] := by
  intro h
  have hlate := h.inTime _ rfl [.ok 600] (List.prefix_refl _)
  revert hlate
  decide

end EnvProxy.Vault
