import NymphMqtt.MessageByteOrder
import Mathlib.Logic.Function.Iterate

/-! `serialize` called again and again on the same message. -/

namespace NymphMqtt
namespace NmqttMessage
variable (host : Host) (m : NmqttMessage)

/-! ### What a call leaves behind -/

/-- What the switch appends to the payload member. -/
def appended : List Byte := ((m.setPayload []).draft host).payload

theorem draft_payload : (m.draft host).payload = m.payload ++ m.appended host := by
  unfold appended draft setPayload
  cases m.command with
  | connect => simp only [draftConnect, List.nil_append, List.append_assoc]
  | subscribe => simp only [draftSubscribe, List.nil_append, List.append_assoc]
  | unsubscribe => simp only [draftUnsubscribe, List.nil_append]
  | _ => exact (List.append_nil m.payload).symm

theorem serialize_message : (m.serialize host).2 = m.setPayload (m.payload ++ m.appended host) := by
  rw [← draft_payload]
  rfl

theorem appended_setPayload (payload : List Byte) :
    (m.setPayload payload).appended host = m.appended host := rfl

/-- At least the length of the client identifier, or of the topic, is appended. -/
theorem appended_eq_nil_iff : m.appended host = [] ↔
    m.command ≠ .connect ∧ m.command ≠ .subscribe ∧ m.command ≠ .unsubscribe := by
  have wide := wideLengthBytes_length host m.topic
  unfold appended draft setPayload
  cases m.command with
  | connect => simp [draftConnect, lengthBytes, shortBytes_eq]
  | subscribe => simp [draftSubscribe]
  | unsubscribe =>
    refine iff_of_false (fun none => ?_) (by decide)
    have size := congrArg List.length none
    simp only [draftUnsubscribe, List.length_append, wide, List.length_nil] at size
    omega
  | _ => exact iff_of_true rfl (by decide)

/-- The message after so many calls. -/
def afterCalls (calls : Nat) : NmqttMessage := (fun m => (m.serialize host).2)^[calls] m

/-- Every call appends the same bytes. -/
theorem afterCalls_eq (calls : Nat) : m.afterCalls host calls =
    m.setPayload (m.payload ++ (List.replicate calls (m.appended host)).flatten) := by
  induction calls with
  | zero =>
    rw [List.replicate_zero, List.flatten_nil, List.append_nil]
    rfl
  | succ calls ih =>
    have step : m.afterCalls host (calls + 1) = ((m.afterCalls host calls).serialize host).2 :=
      Function.iterate_succ_apply' _ calls m
    rw [step, ih, serialize_message, appended_setPayload, List.replicate_succ', List.flatten_concat,
      ← List.append_assoc]
    rfl

/-! ### Repeated calls -/

def observable : List Byte × List Byte × List Byte × MqttPacketType :=
  (m.topic, m.payload, m.will, m.command)

/-- However often it is called, `serialize` gives the same bytes and leaves the message alone. -/
structure Repeats : Prop where
  bytes : ∀ calls, ((m.afterCalls host calls).serialize host).1 = (m.serialize host).1
  fields : ∀ calls, (m.afterCalls host calls).observable = m.observable

/-- Only the types that are not put together in the payload member come out the same again. -/
theorem serialize_repeats_iff : m.Repeats host ↔
    m.command ≠ .connect ∧ m.command ≠ .subscribe ∧ m.command ≠ .unsubscribe := by
  rw [← m.appended_eq_nil_iff host]
  constructor
  · intro repeats
    have once : (m.afterCalls host 1).payload = m.payload :=
      congrArg (fun fields => fields.2.1) (repeats.fields 1)
    rw [afterCalls_eq] at once
    change m.payload ++ (m.appended host ++ []) = m.payload at once
    rwa [List.append_nil, List.append_right_eq_self] at once
  · intro none
    have same : ∀ calls, m.afterCalls host calls = m := by
      intro calls
      rw [afterCalls_eq, none, List.flatten_replicate_nil, List.append_nil]
      rfl
    exact ⟨fun calls => by rw [same], fun calls => by rw [same]⟩

/-- A SUBSCRIBE sent twice: the topic filter is there twice. -/
theorem subscribe_repeated :
    let m := (ofType default .subscribe).setTopic [0x61]
    (m.serialize ⟨.le, true⟩).1 = [0x82, 0x06, 0x00, 0x0A, 0x00, 0x01, 0x61, 0x00] ∧
      ((m.afterCalls ⟨.le, true⟩ 1).serialize ⟨.le, true⟩).1 =
        [0x82, 0x0A, 0x00, 0x0A, 0x00, 0x01, 0x61, 0x00, 0x00, 0x01, 0x61, 0x00] ∧
      ¬m.Repeats ⟨.le, true⟩ := by
  refine ⟨by decide, by decide, fun repeats => ?_⟩
  exact absurd (repeats.bytes 1) (by decide)

end NmqttMessage
end NymphMqtt
