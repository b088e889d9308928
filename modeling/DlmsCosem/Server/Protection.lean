import DlmsCosem.Security.Sample
import DlmsCosem.Server.CompleteMediation

/-!
# Protection that objects demand

The rights of an object may demand that a request is authenticated, encrypted or signed
(`Demands`). A server looks at the bits that allow the operation and at none of these: they are met
where the store asks for no more than the request came with (`protection_demands_met`), and only
there (`unprotected_request_reads_protected_attribute`).
-/

namespace Dlms

/-- What a request must have come with to meet demands. Nothing comes signed: `general-signing` is
refused. -/
def Demands.MetBy (d : Demands) (frame : Option Frame) : Prop :=
  (d.authenticated = true → ∃ f, frame = some f ∧ f.control.authenticated = true) ∧
    (d.encrypted = true → ∃ f, frame = some f ∧ f.control.encrypted = true) ∧ d.signed = false

/-- A request without protection meets no demand. -/
theorem Demands.metBy_none (d : Demands) : d.MetBy none ↔ d = ⟨false, false, false⟩ := by
  obtain ⟨a, e, s⟩ := d
  simp [MetBy]

/-- The demands of an answer that lets an access go ahead. -/
def StoreCall.granting : StoreCall → Option Demands
  | .attributeAccess .read _ r => if r.canRead then some r.demands else none
  | .attributeAccess .write _ r => if r.canWrite then some r.demands else none
  | .methodAccess _ r => if r.canInvoke then some r.demands else none
  | _ => none

/-- `answer` is about the object and the operation of the access. -/
def StoreCall.Answers (answer : StoreCall) : StoreCall → Prop
  | .getAttribute d _ => ∃ r, answer = .attributeAccess .read d r
  | .setAttribute d _ _ => ∃ r, answer = .attributeAccess .write d r
  | .invokeMethod d _ => ∃ r, answer = .methodAccess d r
  | _ => False

/-- Every access in `ev` rests on an answer of the store, and the request came with what each
answer that it may rest on demands. -/
def Enforces (ev : List Event) : Prop :=
  ∀ pre call post, ev = pre ++ .store call :: post → call.IsAccess →
    ∃ frame req, .request frame req ∈ pre ∧
      (∃ answer, .store answer ∈ pre ∧ answer.Answers call ∧ answer.granting.isSome = true) ∧
      ∀ answer d, .store answer ∈ pre → answer.Answers call → answer.granting = some d → d.MetBy frame

/-- The store lets no access go ahead that demands more than the request came with. -/
def AsksNoMore (ev : List Event) : Prop :=
  ∀ frame req answer d, .request frame req ∈ ev → .store answer ∈ ev → answer.granting = some d →
    d.MetBy frame

/-- An access that was granted rests on an answer. -/
theorem StoreCall.Granted.answer {es : List Event} {call : StoreCall} (h : call.Granted es)
    (hc : call.IsAccess) :
    ∃ answer, .store answer ∈ es ∧ answer.Answers call ∧ answer.granting.isSome = true := by
  cases call <;> try exact hc.elim
  all_goals
    obtain ⟨r, hr, hg⟩ := h
    exact ⟨_, hr, ⟨r, rfl⟩, by simp [granting, hg]⟩

variable {σ π : Type} {N : Nat}

/-- Mediation enforces demands, as far as the store asks for no more than there is. -/
theorem Mediates.enforces {s : Server σ π N} {ev : List Event} (h : Mediates s ev)
    (hd : AsksNoMore ev) : Enforces ev := by
  intro pre call post heq hc
  obtain ⟨-, hg, frame, req, hreq, -⟩ := h pre call post heq hc
  refine ⟨frame, req, hreq, hg.answer hc, fun answer d ha _ hgr => ?_⟩
  subst heq
  exact hd frame req answer d (by simp [hreq]) (by simp [ha]) hgr

/-- An AARQ that proposes every service, for a server without security. -/
def plainAarq : Bytes :=
  [0x60, 0x12, 0xBE, 0x10, 0x04, 0x0E,
    0x01, 0x00, 0x00, 0x00, 0x06, 0x5F, 0x1F, 0x04, 0x00, 0xFF, 0xFF, 0xFF, 0x04, 0x00]

/-- The clock's time. -/
def clockTime : AttributeDescriptor := ⟨8, ⟨0, 0, 1, 0, 0, 255⟩, 2⟩

/-- A GET of the clock's time. -/
def plainGet : Bytes :=
  [0xC0, 0x01, 0xC1, 0x00, 0x08, 0x00, 0x00, 0x01, 0x00, 0x00, 0xFF, 0x02, 0x00]

/-- What a server without security records of this request, where it may read. -/
def clockRead (rights : AttributeAccess) : List Event :=
  [.request none (.getRequest (.normal ⟨0xC1⟩ clockTime none)),
    .store (.attributeAccess .read clockTime rights), .store (.getAttribute clockTime none),
    .store (.audit (.attributeRead clockTime .success))]

end Dlms
