import ReviewConsole.ConsoleRuns

/-!
# How many attempts are on the trail

Every disposition that resolves to a pending item leaves one sign-off event, whether it was
allowed or denied. One that resolves to a terminal item raises before the record, so the
trail counts the attempts exactly as long as nobody disposes of a terminal item.
-/
namespace ReviewConsole
open GuardedRuns

variable (tenant id : String)

def disposesOf (r : ConsoleRequest) : Bool :=
  match r.call with
  | .dispose d => d.checkerTenant = tenant ∧ d.reviewId = id
  | _ => false

/-- A disposition that finds this review in the store. -/
def resolves (w : World) (r : ConsoleRequest) : Bool :=
  disposesOf tenant id r && (w.reviews.get tenant id).isSome

/-- A disposition that finds this review in the store and already terminal. -/
def resolvesTerminal (w : World) (r : ConsoleRequest) : Bool :=
  disposesOf tenant id r && (w.reviews.get tenant id).any ReviewItem.isTerminal

/-- A disposition that finds this review in the store and still pending. -/
def resolvesPending (w : World) (r : ConsoleRequest) : Bool :=
  disposesOf tenant id r && (w.reviews.get tenant id).any (fun item => !item.isTerminal)

def disposeEvents (w : World) : List SignOffEvent :=
  (w.trail tenant id).filter (fun e => e.action = "dispose")

variable {tenant id} {w : World} {r : ConsoleRequest}

theorem resolves_split (w : World) (r : ConsoleRequest) :
    (resolves tenant id w r).toNat =
      (resolvesPending tenant id w r).toNat + (resolvesTerminal tenant id w r).toNat := by
  simp only [resolves, resolvesPending, resolvesTerminal]
  cases disposesOf tenant id r with
  | false => rfl
  | true =>
    cases w.reviews.get tenant id with
    | none => rfl
    | some item => cases h : item.isTerminal <;> simp [h]

private theorem disposesOf_dispose {d : DisposeArgs} (hcall : r.call = .dispose d) :
    disposesOf tenant id r = decide ((d.checkerTenant, d.reviewId) = (tenant, id)) := by
  simp only [disposesOf, hcall, Prod.mk.injEq]

private theorem resolvesPending_of_get {d : DisposeArgs} {stored : ReviewItem}
    (hcall : r.call = .dispose d) (hget : w.reviews.get d.checkerTenant d.reviewId = some stored) :
    resolvesPending tenant id w r =
      decide (stored.key = (tenant, id) ∧ stored.state = .pending) := by
  obtain ⟨h1, h2⟩ := LocalReviewStore.key_of_get hget
  rw [resolvesPending, disposesOf_dispose hcall, ReviewItem.key, h1, h2]
  by_cases h : (d.checkerTenant, d.reviewId) = (tenant, id)
  · cases h
    simp [hget, ReviewItem.isTerminal, ReviewState.isTerminal]
  · simp [h]

private theorem disposeEvents_noted (e : SignOffEvent) :
    disposeEvents tenant id (w.noted false e) = disposeEvents tenant id w ++
      if e.action = "dispose" ∧ (e.tenant, e.reviewId) = (tenant, id) then [e] else [] := by
  simp only [disposeEvents]
  rw [World.trail_noted, List.filter_append, kept_false]
  congr 1
  by_cases h : (e.tenant, e.reviewId) = (tenant, id)
  · by_cases h' : e.action = "dispose" <;> simp [h, h']
  · simp [h]

/-- A request adds one event exactly when it disposes of the pending review. -/
theorem disposeEvents_effect {w' : World} {response : Except ServiceError ConsoleResponse}
    (heffect : ConsoleEffect r false w response w') :
    (disposeEvents tenant id w').length =
      (disposeEvents tenant id w).length + (resolvesPending tenant id w r).toNat := by
  cases heffect with
  | untouched _ _ h =>
    have hno : resolvesPending tenant id w r = false := by
      simp only [resolvesPending, disposesOf]
      split
      · rename_i d hcall
        by_cases hd : d.checkerTenant = tenant ∧ d.reviewId = id
        · obtain ⟨rfl, rfl⟩ := hd
          simp [h d hcall]
        · simp [hd]
      · rfl
    rw [hno]
    rfl
  | refused d stored e hcall hget hstate hwritten =>
    have hno : resolvesPending tenant id w r = false := by
      simp [resolvesPending_of_get hcall hget, hstate]
    rw [hno]
    rfl
  | submitted s item reviews hcall hitem hput hwritten =>
    have hno : resolvesPending tenant id w r = false := by
      rcases hcall with hcall | hcall <;> simp [resolvesPending, disposesOf, hcall]
    rw [hno, disposeEvents_noted, if_neg (by simp), List.append_nil]
    rfl
  | denied d stored findings outcome hcall hget hstate hne hwritten houtcome =>
    have hkey : outcome.item.key = stored.key := by simp [houtcome]
    rw [disposeEvents_noted, resolvesPending_of_get hcall hget]
    simp only [ConsoleService.disposeEvent_action, ConsoleService.disposeEvent_key, hkey, hstate,
      true_and, and_true]
    split_ifs with h <;> simp [h]
  | disposed d stored reviews outcome hcall hget hstate hel hput hwritten houtcome =>
    have hkey : outcome.item.key = stored.key := by simp [houtcome]
    rw [disposeEvents_noted, resolvesPending_of_get hcall hget]
    have hlog : disposeEvents tenant id { w with reviews } = disposeEvents tenant id w := rfl
    simp only [ConsoleService.disposeEvent_action, ConsoleService.disposeEvent_key, hkey, hstate,
      true_and, and_true, hlog]
    split_ifs with h <;> simp [h]

/-- Over a run the disposals on the trail and the refusals of the terminal review add up to
the dispositions that resolved to it. -/
theorem disposeEvents_add_refusals (rs : List ConsoleRequest) (tenant id : String) :
    (disposeEvents tenant id (consoleAfter rs)).length +
      countAlong serve (resolvesTerminal tenant id) World.empty rs =
      countAlong serve (resolves tenant id) World.empty rs := by
  have hcount : (disposeEvents tenant id (consoleAfter rs)).length =
      (disposeEvents tenant id World.empty).length +
        countAlong serve (resolvesPending tenant id) World.empty rs :=
    count_run (fun w => (disposeEvents tenant id w).length)
      (fun w r => disposeEvents_effect (consoleEffect_answer w r))
  have hempty : (disposeEvents tenant id World.empty).length = 0 := rfl
  rw [countAlong_split resolves_split, hcount, hempty, Nat.zero_add]

/-- The trail of a review counts the dispositions that resolved to it exactly when none of
them found it terminal. -/
theorem every_attempt_recorded_iff (rs : List ConsoleRequest) (tenant id : String) :
    (disposeEvents tenant id (consoleAfter rs)).length =
        countAlong serve (resolves tenant id) World.empty rs ↔
      Along serve (fun w r => resolvesTerminal tenant id w r = false) World.empty rs := by
  have hsum := disposeEvents_add_refusals rs tenant id
  rw [← countAlong_eq_zero]
  omega

/-- A second disposition of an approved item is attempted and leaves no event. -/
theorem attempt_on_terminal_unrecorded : ¬ ∀ (rs : List ConsoleRequest) (tenant id : String),
    (disposeEvents tenant id (consoleAfter rs)).length =
      countAlong serve (resolves tenant id) World.empty rs := by
  intro h
  have hrun := h [Demo.submit, Demo.approve, Demo.approve] "demo-bank" "rev-1"
  revert hrun
  decide

end ReviewConsole
