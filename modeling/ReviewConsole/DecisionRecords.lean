import ReviewConsole.ConsoleRuns

/-!
# What is kept of a decision

An accepted decision leaves a stored item and an event on the trail. Both are written down
here as functions of the item it found and of the decision, so that it can be read off which
parts of the decision they determine.
-/
namespace ReviewConsole
open PortPrograms Program

/-- What a checker decides. -/
structure DecisionContent where
  disposition : Disposition
  checker : String
  reason : String
  amendments : List String
  deriving DecidableEq, Repr

def DisposeArgs.content (d : DisposeArgs) : DecisionContent :=
  ⟨d.disposition, d.checker, d.reason, d.amendments⟩

/-- The same decision but for its amendments. -/
structure DifferOnlyInAmendments (d₁ d₂ : DisposeArgs) : Prop where
  disposition : d₁.disposition = d₂.disposition
  checker : d₁.checker = d₂.checker
  reason : d₁.reason = d₂.reason
  amendments : d₁.amendments ≠ d₂.amendments

/-- The item with no instants on its approvals. -/
def ReviewItem.undated (item : ReviewItem) : ReviewItem :=
  { item with approvals := item.approvals.map (fun approval => { approval with «at» := ⟨1, 0⟩ }) }

def SignOffEvent.undated (e : SignOffEvent) : SignOffEvent := { e with timestamp := ⟨1, 0⟩ }

/-- The stored item and the last event of its trail, timestamps left out. -/
def World.lastRecord (w : World) (tenant id : String) : Option ReviewItem × Option SignOffEvent :=
  ((w.reviews.get tenant id).map ReviewItem.undated,
    (w.trail tenant id).getLast?.map SignOffEvent.undated)

namespace ConsoleService

/-- The service answers the disposition with an outcome that is allowed. -/
def Accepts (svc : ConsoleService) (w : World) (d : DisposeArgs) (r : Readings) : Prop :=
  ∃ outcome, (answer w ⟨svc, .dispose d, r⟩).1 = .ok (.outcome outcome) ∧
    outcome.allowed = true

/-- What is persisted of the disposition. -/
def recorded (svc : ConsoleService) (w : World) (d : DisposeArgs) (r : Readings) :
    Option ReviewItem × Option SignOffEvent :=
  (serve w ⟨svc, .dispose d, r⟩).lastRecord d.checkerTenant d.reviewId

end ConsoleService

section
variable {svc : ConsoleService} {w : World} {d d₁ d₂ : DisposeArgs} {r r₁ r₂ : Readings}
variable {stored : ReviewItem} {now now₁ now₂ : DateTime}

theorem answer_of_missing (h : w.reviews.get d.checkerTenant d.reviewId = none) :
    answer w ⟨svc, .dispose d, r⟩ = (.error (.reviewNotFound d.reviewId), w) := by
  have hget : (port (.reviewGet d.checkerTenant d.reviewId)).exec localPorts w =
      (.ok (w.reviews.get d.checkerTenant d.reviewId), w) := rfl
  rw [h] at hget
  simp only [answer, ConsoleRequest.program, ConsoleService.dispose, exec_bind, hget, exec_raise]

/-- A disposition that is answered with an allowed outcome stored the disposed item and put
its event at the end of the trail. -/
private theorem accepted_effect {response : Except ServiceError ConsoleResponse} {w' : World}
    {outcome : DispositionOutcome}
    (h : ConsoleEffect ⟨svc, .dispose d, r⟩ false w response w')
    (hresponse : response = .ok (.outcome outcome)) (hallowed : outcome.allowed = true)
    (hget : w.reviews.get d.checkerTenant d.reviewId = some stored) :
    stored.state = .pending ∧
      w'.reviews.get d.checkerTenant d.reviewId = some (svc.disposed stored d r.now) ∧
      w'.trail d.checkerTenant d.reviewId = w.trail d.checkerTenant d.reviewId ++
        [svc.disposeEvent d ⟨svc.disposed stored d r.now, .allowed, []⟩ r.timestamp] := by
  cases h with
  | untouched response hwritten hmissing =>
    rw [hmissing d rfl] at hget
    cases hget
  | refused => cases hresponse
  | submitted s item reviews hcall =>
    rcases hcall with hcall | hcall
    · cases hcall
    · cases hcall
  | denied d' stored' findings outcome' hcall hget' hstate hne hwritten houtcome =>
    cases hresponse
    rw [houtcome] at hallowed
    cases hallowed
  | disposed d' stored' reviews outcome' hcall hget' hstate hel hput hwritten houtcome =>
    cases hcall
    rw [hget] at hget'
    cases hget'
    have hkey : outcome'.item.key = (d.checkerTenant, d.reviewId) := by
      obtain ⟨h1, h2⟩ := LocalReviewStore.key_of_get hget
      rw [houtcome, ConsoleService.disposed_key, ReviewItem.key, h1, h2]
    rw [World.noted_reviews, World.trail_noted, ConsoleService.disposeEvent_key, hkey, if_pos rfl,
      LocalReviewStore.get_put hput, if_pos hkey.symm, kept_false, houtcome]
    exact ⟨hstate, rfl, rfl⟩

/-- An accepted disposition found a pending item, stored the disposed one and recorded it. -/
theorem recorded_of_accepts (h : svc.Accepts w d r) :
    ∃ stored, w.reviews.get d.checkerTenant d.reviewId = some stored ∧ stored.state = .pending ∧
      svc.recorded w d r = (some (svc.disposed stored d r.now).undated,
        some (svc.disposeEvent d ⟨svc.disposed stored d r.now, .allowed, []⟩
          r.timestamp).undated) := by
  obtain ⟨outcome, hanswer, hallowed⟩ := h
  cases hget : w.reviews.get d.checkerTenant d.reviewId with
  | none =>
    rw [answer_of_missing hget] at hanswer
    cases hanswer
  | some stored =>
    obtain ⟨hstate, hstored, htrail⟩ :=
      accepted_effect (consoleEffect_answer w ⟨svc, .dispose d, r⟩) hanswer hallowed hget
    refine ⟨stored, rfl, hstate, ?_⟩
    rw [ConsoleService.recorded, World.lastRecord, serve, hstored, htrail, List.getLast?_concat]
    rfl

theorem disposed_undated_congr (hdisposition : d₁.disposition = d₂.disposition)
    (hchecker : d₁.checker = d₂.checker) (hreason : d₁.reason = d₂.reason) :
    (svc.disposed stored d₁ now₁).undated = (svc.disposed stored d₂ now₂).undated ∧
      (svc.disposed stored d₁ now₁).state = (svc.disposed stored d₂ now₂).state := by
  cases hd : d₂.disposition with
  | approve =>
    rw [svc.disposed_approve stored d₁ now₁ (hdisposition.trans hd),
      svc.disposed_approve stored d₂ now₂ hd]
    simp [ReviewItem.undated, ReviewItem.withApproval, hchecker, hreason]
  | reject =>
    simp only [ConsoleService.disposed, MakerCheckerService.applied, DisposeArgs.decision]
    simp [hdisposition, hd, hreason]
  | amend =>
    simp only [ConsoleService.disposed, MakerCheckerService.applied, DisposeArgs.decision]
    simp [hdisposition, hd, hreason]

/-- Two accepted decisions on one item leave the same records exactly when they agree in the
disposition, the checker and the reason. -/
theorem recorded_eq_iff (hredact : Function.Injective svc.redact)
    (htenant : d₁.checkerTenant = d₂.checkerTenant) (hid : d₁.reviewId = d₂.reviewId)
    (h₁ : svc.Accepts w d₁ r₁) (h₂ : svc.Accepts w d₂ r₂) :
    svc.recorded w d₁ r₁ = svc.recorded w d₂ r₂ ↔
      d₁.disposition = d₂.disposition ∧ d₁.checker = d₂.checker ∧ d₁.reason = d₂.reason := by
  obtain ⟨stored, hget₁, -, hrecorded₁⟩ := recorded_of_accepts h₁
  obtain ⟨stored', hget₂, -, hrecorded₂⟩ := recorded_of_accepts h₂
  rw [htenant, hid, hget₂] at hget₁
  cases hget₁
  rw [hrecorded₁, hrecorded₂]
  constructor
  · intro h
    have hevent := Option.some.inj (Prod.mk.inj h).2
    have hreason := congrArg SignOffEvent.redactedReason hevent
    exact ⟨congrArg SignOffEvent.disposition hevent, congrArg SignOffEvent.checker hevent,
      hredact hreason⟩
  · intro h
    obtain ⟨hdisposition, hchecker, hreason⟩ := h
    obtain ⟨hitem, hstate⟩ := @disposed_undated_congr svc d₁ d₂ stored r₁.now r₂.now hdisposition
      hchecker hreason
    rw [hitem]
    simp [SignOffEvent.undated, ConsoleService.disposeEvent, ConsoleService.signOffEvent,
      hdisposition, hchecker, hreason, hstate]

/-- What is persisted of two accepted decisions on one item tells them apart exactly when they
do not differ in their amendments alone. -/
theorem decision_determined_iff (svc : ConsoleService) (hredact : Function.Injective svc.redact)
    (w : World) (d₁ d₂ : DisposeArgs) (r₁ r₂ : Readings)
    (htenant : d₁.checkerTenant = d₂.checkerTenant) (hid : d₁.reviewId = d₂.reviewId)
    (h₁ : svc.Accepts w d₁ r₁) (h₂ : svc.Accepts w d₂ r₂) :
    (svc.recorded w d₁ r₁ = svc.recorded w d₂ r₂ → d₁.content = d₂.content) ↔
      ¬ DifferOnlyInAmendments d₁ d₂ := by
  rw [recorded_eq_iff hredact htenant hid h₁ h₂, DisposeArgs.content, DisposeArgs.content,
    DecisionContent.mk.injEq]
  constructor
  · intro h hdiffer
    obtain ⟨-, -, -, hamendments⟩ := h ⟨hdiffer.disposition, hdiffer.checker, hdiffer.reason⟩
    exact hdiffer.amendments hamendments
  · intro h hsame
    obtain ⟨hdisposition, hchecker, hreason⟩ := hsame
    refine ⟨hdisposition, hchecker, hreason, ?_⟩
    by_contra hamendments
    exact h ⟨hdisposition, hchecker, hreason, hamendments⟩

end

namespace Demo

/-- The item goes back to its maker with these changes. -/
def sendBack (amendments : List String) : DisposeArgs :=
  { disposition "demo.approver@bank.example" .amend with amendments }

theorem sendBack_accepted (amendments : List String) :
    console.Accepts (consoleAfter [submit]) (sendBack amendments) readings :=
  ⟨_, rfl, rfl⟩

end Demo

theorem demo_decision_determined_iff :
    (Demo.console.recorded (consoleAfter [Demo.submit]) (Demo.sendBack ["lower the limit"])
        Demo.readings =
      Demo.console.recorded (consoleAfter [Demo.submit]) (Demo.sendBack []) Demo.readings →
        (Demo.sendBack ["lower the limit"]).content = (Demo.sendBack []).content) ↔
      ¬ DifferOnlyInAmendments (Demo.sendBack ["lower the limit"]) (Demo.sendBack []) :=
  decision_determined_iff Demo.console Function.injective_id (consoleAfter [Demo.submit])
    (Demo.sendBack ["lower the limit"]) (Demo.sendBack []) Demo.readings Demo.readings rfl rfl
    (Demo.sendBack_accepted _) (Demo.sendBack_accepted _)

/-- The changes that the checker asks for are in no record. -/
theorem amendments_dropped :
    Demo.console.Accepts (consoleAfter [Demo.submit]) (Demo.sendBack ["lower the limit"])
      Demo.readings ∧
    Demo.console.Accepts (consoleAfter [Demo.submit]) (Demo.sendBack []) Demo.readings ∧
    Demo.console.recorded (consoleAfter [Demo.submit]) (Demo.sendBack ["lower the limit"])
        Demo.readings =
      Demo.console.recorded (consoleAfter [Demo.submit]) (Demo.sendBack []) Demo.readings ∧
    (Demo.sendBack ["lower the limit"]).content ≠ (Demo.sendBack []).content :=
  ⟨Demo.sendBack_accepted _, Demo.sendBack_accepted _, rfl, by decide⟩

end ReviewConsole
