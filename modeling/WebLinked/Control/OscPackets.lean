import Mathlib
import WebLinked.Control.OscReadings

/-!
# Packets are decoded into the messages in them

Any bytes are a packet: a message, a bundle of packets, or neither. Up to an element of no bytes the
packets of a bundle are decoded one by one and in order, so a packet is decoded as it was sent if each
message in it is, and nothing else in it is taken for one.
-/

namespace WebLinked.Control.Osc

namespace Packet

/-- It is decoded into the messages in it, whatever its blobs hold. -/
def Exact (p : Packet) : Prop :=
  ∀ f : Bytes → Bytes, (∀ content, (f content).length = content.length) →
    decodePacket (p.fill f).encode = (p.fill f).messages.map Sent.message

mutual

/-- No blob has a length that is a multiple of four, nothing that is neither a message nor a bundle
is taken for a message, and no message stands behind an element of no bytes. -/
def Plain : Packet → Prop
  | message m => ∀ a ∈ m.arguments, a.isOdd
  | bundle _ _ elements _ => PlainAll elements
  | other content => ¬ Heard content

/-- Elements up to one of no bytes are so, and no message comes after that. -/
def PlainAll : List Packet → Prop
  | [] => True
  | p :: elements =>
    p.Plain ∧ if p.encode = [] then messagesAll elements = [] else PlainAll elements

end

end Packet

section Packets

/-- A string is four bytes or more. -/
theorem four_le_encodeString (text : Bytes) : 4 ≤ (encodeString text).length := by
  rw [length_encodeString, padded]
  omega

/-- A message has two of them. -/
theorem eight_le_encode (m : Sent) : 8 ≤ m.encode.length := by
  have haddress := four_le_encodeString m.address
  have htags := four_le_encodeString
    (UInt8.ofNat ','.toNat :: m.arguments.map fun a ↦ UInt8.ofNat a.tag.toNat)
  rw [Sent.encode, List.length_append, List.length_append]
  omega

/-- A message is no bundle. -/
theorem decodePacket_message {m : Sent} (h : m.WellFormed) :
    decodePacket m.encode = (decodeMessage m.encode).toList := by
  have hlong : ¬ m.encode.length < 4 := by
    have := eight_le_encode m
    omega
  have hhead : m.encode.head? = some (UInt8.ofNat '/'.toNat) := by
    rw [Sent.encode, encodeString, List.append_assoc, List.append_assoc, List.head?_append, h.slash]
    rfl
  have hbundle : m.encode.take 7 ≠ ascii "#bundle" := by
    intro htake
    have hfirst := congrArg List.head? htake
    rw [List.head?_take, if_neg (by decide), hhead] at hfirst
    exact absurd hfirst (by decide)
  rw [decodePacket, decodePacketTo, if_neg hlong, decide_eq_false hbundle, Bool.and_false]
  rfl

/-- The elements of a bundle, as bytes. -/
theorem Packet.encodeAll_eq (elements : List Packet) :
    Packet.encodeAll elements = (elements.map Packet.encode).flatMap element := by
  induction elements with
  | nil => rw [Packet.encodeAll, List.map_nil, List.flatMap_nil]
  | cons p elements ih => rw [Packet.encodeAll, ih, List.map_cons, List.flatMap_cons]

/-- A bundle is decoded by its elements. -/
theorem decodePacket_bundle (high low : BitVec 32) (elements : List Packet) {tail : Bytes}
    (hno : NoElement tail) (hsize : (Packet.bundle high low elements tail).encode.length < 2 ^ 31) :
    decodePacket (Packet.bundle high low elements tail).encode =
      calls (elements.map Packet.encode) := by
  have hencode : (Packet.bundle high low elements tail).encode =
      (encodeString (ascii "#bundle") ++ encodeWord high ++ encodeWord low) ++
        ((elements.map Packet.encode).flatMap element ++ tail) := by
    rw [Packet.encode, Packet.encodeAll_eq, List.append_assoc _ _ tail]
  rw [hencode] at hsize ⊢
  exact decodePacket_elements _ ⟨_, rfl⟩ rfl hno hsize

/-- A packet of no bytes has no messages in it. -/
theorem Packet.messages_of_encode {p : Packet} (h : p.encode = []) : p.messages = [] := by
  cases p with
  | message m =>
    have hlong := eight_le_encode m
    rw [Packet.encode] at h
    rw [h] at hlong
    cases hlong
  | bundle high low elements tail =>
    rw [Packet.encode] at h
    simp only [List.append_eq_nil_iff] at h
    exact absurd h.1.1.1.1 (by decide)
  | other content => rw [Packet.messages]

/-- The packet with other contents of blobs has the messages with these contents. -/
def Sent.fill (f : Bytes → Bytes) (m : Sent) : Sent :=
  { m with arguments := m.arguments.map (Argument.fill f) }

mutual

theorem messages_fill (f : Bytes → Bytes) (p : Packet) :
    (p.fill f).messages = p.messages.map (Sent.fill f) := by
  match p with
  | .message m => rfl
  | .bundle high low elements tail =>
    rw [Packet.fill, Packet.messages, Packet.messages]
    exact messagesAll_fill f elements
  | .other content => rfl

theorem messagesAll_fill (f : Bytes → Bytes) (elements : List Packet) :
    Packet.messagesAll (Packet.fillAll f elements) =
      (Packet.messagesAll elements).map (Sent.fill f) := by
  match elements with
  | [] => rfl
  | p :: elements =>
    rw [Packet.fillAll, Packet.messagesAll, Packet.messagesAll, List.map_append,
      messages_fill f p, messagesAll_fill f elements]

end

/-- Contents of the same lengths leave an argument as long. -/
theorem Argument.length_fill {f : Bytes → Bytes} (hf : ∀ content, (f content).length = content.length)
    (a : Argument) : (a.fill f).encode.length = a.encode.length := by
  cases a with
  | blob content =>
    change (encodeBlob (f content)).length = (encodeBlob content).length
    rw [length_encodeBlob, length_encodeBlob, hf]
  | _ => rfl

/-- So they do a message. -/
theorem Sent.length_fill {f : Bytes → Bytes} (hf : ∀ content, (f content).length = content.length)
    (m : Sent) : (m.fill f).encode.length = m.encode.length := by
  have htags : (m.fill f).arguments.map (fun a ↦ UInt8.ofNat a.tag.toNat) =
      m.arguments.map fun a ↦ UInt8.ofNat a.tag.toNat := by
    rw [Sent.fill, List.map_map]
    refine List.map_congr_left fun a _ ↦ ?_
    cases a <;> rfl
  have hpayload (arguments : List Argument) :
      ((arguments.map (Argument.fill f)).flatMap Argument.encode).length =
        (arguments.flatMap Argument.encode).length := by
    induction arguments with
    | nil => rfl
    | cons a arguments ih =>
      rw [List.map_cons, List.flatMap_cons, List.flatMap_cons, List.length_append,
        List.length_append, Argument.length_fill hf, ih]
  rw [Sent.encode, Sent.encode, htags]
  simp only [List.length_append]
  exact congrArg _ (hpayload m.arguments)

mutual

/-- And a packet. -/
theorem Packet.length_fill {f : Bytes → Bytes} (hf : ∀ content, (f content).length = content.length)
    (p : Packet) : (p.fill f).encode.length = p.encode.length := by
  match p with
  | .message m =>
    rw [Packet.fill, Packet.encode, Packet.encode]
    exact Sent.length_fill hf m
  | .bundle high low elements tail =>
    rw [Packet.fill, Packet.encode, Packet.encode]
    simp only [List.length_append, Packet.length_fillAll hf elements]
  | .other content => rfl

theorem Packet.length_fillAll {f : Bytes → Bytes}
    (hf : ∀ content, (f content).length = content.length) (elements : List Packet) :
    (Packet.encodeAll (Packet.fillAll f elements)).length = (Packet.encodeAll elements).length := by
  match elements with
  | [] => rfl
  | p :: elements =>
    rw [Packet.fillAll, Packet.encodeAll, Packet.encodeAll]
    simp only [element, List.length_append, length_encodeWord, Packet.length_fill hf p,
      Packet.length_fillAll hf elements]

end

/-- Other contents of the same lengths leave a message well formed. -/
theorem Sent.WellFormed.fill {m : Sent} (h : m.WellFormed) (f : Bytes → Bytes) :
    (m.fill f).WellFormed where
  slash := h.slash
  address := h.address
  arguments := by
    intro a ha
    obtain ⟨a', ha', rfl⟩ := List.mem_map.mp ha
    cases a' with
    | string text => exact h.arguments _ ha'
    | symbol text => exact h.arguments _ ha'
    | _ => trivial

/-- And leave what is odd. -/
theorem Argument.isOdd_fill {f : Bytes → Bytes} (hf : ∀ content, (f content).length = content.length)
    (a : Argument) : (a.fill f).isOdd = a.isOdd := by
  cases a with
  | blob content => simp only [Argument.fill, Argument.isOdd, hf]
  | _ => rfl

/-- A message is decoded as it was sent whatever its blobs hold, exactly if none of them has a length
that is a multiple of four. -/
theorem exact_message {m : Sent} (hwell : m.WellFormed) (hsize : m.encode.length < 2 ^ 31) :
    (Packet.message m).Exact ↔ ∀ a ∈ m.arguments, a.isOdd := by
  have hdecode (f : Bytes → Bytes) :
      decodePacket ((Packet.message m).fill f).encode =
          ((Packet.message m).fill f).messages.map Sent.message ↔
        decodeMessage (m.fill f).encode = some (m.fill f).message := by
    have hfill : (Packet.message m).fill f = .message (m.fill f) := rfl
    rw [hfill, Packet.encode, Packet.messages, decodePacket_message (hwell.fill f)]
    cases decodeMessage (m.fill f).encode <;> simp
  constructor
  · intro h a ha
    by_contra heven
    let f : Bytes → Bytes := fun content ↦ List.replicate content.length 255
    have hf (content : Bytes) : (f content).length = content.length := List.length_replicate
    refine decodeMessage_of_even (hwell.fill f) ?_ ?_ ?_ ((hdecode f).mp (h f hf))
    · rwa [Sent.length_fill hf]
    · intro content hcontent
      obtain ⟨a', -, ha'⟩ := List.mem_map.mp hcontent
      cases a' with
      | blob content' =>
        cases ha'
        exact fun b hb ↦ List.eq_of_mem_replicate hb
      | _ => cases ha'
    · refine ⟨a.fill f, List.mem_map_of_mem ha, ?_⟩
      rw [Argument.isOdd_fill hf]
      exact Bool.not_eq_true _ ▸ heven
  · intro h f hf
    apply (hdecode f).mpr
    refine decodeMessage_of_odd (hwell.fill f) ?_ ?_
    · rwa [Sent.length_fill hf]
    · intro a ha
      obtain ⟨a', ha', rfl⟩ := List.mem_map.mp ha
      rw [Argument.isOdd_fill hf]
      exact h a' ha'

/-- What is neither a message nor a bundle is decoded into nothing exactly if nothing in it is taken
for a message. -/
theorem exact_other {content : Bytes} (hsize : content.length < 2 ^ 31) :
    (Packet.other content).Exact ↔ ¬ Heard content := by
  rw [← decodePacket_ne_nil hsize, not_not]
  constructor
  · exact fun h ↦ h id fun _ ↦ rfl
  · exact fun h _ _ ↦ h

/-- Elements are decoded into the messages in them, whatever their blobs hold. -/
def ExactAll (elements : List Packet) : Prop :=
  ∀ f : Bytes → Bytes, (∀ content, (f content).length = content.length) →
    calls ((Packet.fillAll f elements).map Packet.encode) =
      (Packet.messagesAll (Packet.fillAll f elements)).map Sent.message

/-- A bundle is decoded as it was sent if its elements are. -/
theorem exact_bundle {high low : BitVec 32} {elements : List Packet} {tail : Bytes}
    (hno : NoElement tail) (hsize : (Packet.bundle high low elements tail).encode.length < 2 ^ 31) :
    (Packet.bundle high low elements tail).Exact ↔ ExactAll elements := by
  refine forall_congr' fun f ↦ forall_congr' fun hf ↦ ?_
  have hfill : (Packet.bundle high low elements tail).fill f =
      .bundle high low (Packet.fillAll f elements) tail := by rw [Packet.fill]
  have hlength := Packet.length_fill hf (Packet.bundle high low elements tail)
  rw [hfill] at hlength ⊢
  rw [decodePacket_bundle high low _ hno (hlength ▸ hsize), Packet.messages]

/-- An element of no bytes ends the reading, so that no message may come after it. -/
theorem exactAll_of_empty {p : Packet} (elements : List Packet) (h : p.encode = []) :
    ExactAll (p :: elements) ↔ Packet.messagesAll elements = [] := by
  have hnone (f : Bytes → Bytes) (hf : ∀ content, (f content).length = content.length) :
      (p.fill f).encode = [] := by
    rw [← List.length_eq_zero_iff, Packet.length_fill hf, h, List.length_nil]
  have hmessages (f : Bytes → Bytes) (hf : ∀ content, (f content).length = content.length) :
      (Packet.messagesAll (Packet.fillAll f (p :: elements))).map Sent.message = [] ↔
        Packet.messagesAll elements = [] := by
    rw [Packet.fillAll, Packet.messagesAll, Packet.messages_of_encode (hnone f hf), List.nil_append,
      messagesAll_fill, List.map_eq_nil_iff, List.map_eq_nil_iff]
  have hcalls (f : Bytes → Bytes) (hf : ∀ content, (f content).length = content.length) :
      calls ((Packet.fillAll f (p :: elements)).map Packet.encode) = [] := by
    rw [Packet.fillAll, List.map_cons, calls, if_pos (hnone f hf)]
  constructor
  · intro hall
    have hid := hall id fun _ ↦ rfl
    rw [hcalls id fun _ ↦ rfl] at hid
    exact (hmessages id fun _ ↦ rfl).mp hid.symm
  · intro hall f hf
    rw [hcalls f hf, (hmessages f hf).mpr hall]

/-- After one that is decoded as it was sent, the others have to be. -/
theorem exactAll_of_exact {p : Packet} (elements : List Packet) (h : p.encode ≠ []) (hp : p.Exact) :
    ExactAll (p :: elements) ↔ ExactAll elements := by
  refine forall_congr' fun f ↦ forall_congr' fun hf ↦ ?_
  have hsome : (p.fill f).encode ≠ [] := by
    rw [← List.length_pos_iff, Packet.length_fill hf]
    exact List.length_pos_iff.mpr h
  rw [Packet.fillAll, List.map_cons, calls, if_neg hsome, Packet.messagesAll, List.map_append, hp f hf,
    List.append_cancel_left_eq]

/-- A packet is one of its parts. -/
theorem Packet.mem_parts (p : Packet) : p ∈ p.parts := by
  cases p <;> rw [Packet.parts] <;> exact List.mem_cons_self

mutual

/-- A packet and the packets in it that the reader gets to are decoded into the messages in them,
whatever their blobs hold, exactly if the packet is plain. -/
theorem exact_parts_iff (p : Packet) (hwell : p.WellFormed) (hsize : p.encode.length < 2 ^ 31) :
    (∀ q ∈ p.parts, q.Exact) ↔ p.Plain := by
  match p with
  | .message m =>
    rw [Packet.WellFormed] at hwell
    rw [Packet.encode] at hsize
    rw [Packet.parts, Packet.Plain, List.forall_mem_singleton]
    exact exact_message hwell hsize
  | .bundle high low elements tail =>
    rw [Packet.WellFormed] at hwell
    have hfits : (Packet.encodeAll elements).length < 2 ^ 31 := by
      rw [Packet.encode, List.length_append, List.length_append] at hsize
      omega
    rw [Packet.parts, Packet.Plain, List.forall_mem_cons, exact_bundle hwell.2 hsize, and_comm]
    exact exact_partsAll_iff elements hwell.1 hfits
  | .other content =>
    rw [Packet.encode] at hsize
    rw [Packet.parts, Packet.Plain, List.forall_mem_singleton]
    exact exact_other hsize

/-- So are elements. -/
theorem exact_partsAll_iff (elements : List Packet) (hwell : Packet.WellFormedAll elements)
    (hsize : (Packet.encodeAll elements).length < 2 ^ 31) :
    (∀ q ∈ Packet.partsAll elements, q.Exact) ∧ ExactAll elements ↔ Packet.PlainAll elements := by
  match elements with
  | [] =>
    rw [Packet.partsAll, Packet.PlainAll]
    exact iff_of_true ⟨fun q hq ↦ absurd hq List.not_mem_nil, fun f hf ↦ rfl⟩ trivial
  | p :: elements =>
    rw [Packet.WellFormedAll] at hwell
    rw [Packet.encodeAll, element, List.length_append, List.length_append] at hsize
    have hfirst := exact_parts_iff p hwell.1 (by omega)
    have hrest := exact_partsAll_iff elements hwell.2 (by omega)
    rw [Packet.partsAll, Packet.PlainAll, ← hfirst, List.forall_mem_append]
    by_cases hempty : p.encode = []
    · rw [if_pos hempty, if_pos hempty, exactAll_of_empty elements hempty]
      constructor
      · exact fun h ↦ ⟨h.1.1, h.2⟩
      · exact fun h ↦ ⟨⟨h.1, fun q hq ↦ absurd hq List.not_mem_nil⟩, h.2⟩
    · rw [if_neg hempty, if_neg hempty, and_assoc, ← hrest]
      refine and_congr_right fun hparts ↦ and_congr_right fun _ ↦ ?_
      exact exactAll_of_exact elements hempty (hparts p p.mem_parts)

end

/-- Contents are packets if each of them is one. -/
private theorem exists_packets (contents : List Bytes)
    (h : ∀ content ∈ contents, ∃ p : Packet, p.WellFormed ∧ p.encode = content) :
    ∃ elements, Packet.WellFormedAll elements ∧ elements.map Packet.encode = contents := by
  induction contents with
  | nil => exact ⟨[], by rw [Packet.WellFormedAll]; trivial, rfl⟩
  | cons content contents ih =>
    obtain ⟨hfirst, hrest⟩ := List.forall_mem_cons.mp h
    obtain ⟨p, hp, hencode⟩ := hfirst
    obtain ⟨elements, hall, hmap⟩ := ih hrest
    refine ⟨p :: elements, ?_, by rw [List.map_cons, hencode, hmap]⟩
    rw [Packet.WellFormedAll]
    exact ⟨hp, hall⟩

/-- Any bytes are a packet. -/
theorem exists_packet (data : Bytes) (hsize : data.length < 2 ^ 31) :
    ∃ p : Packet, p.WellFormed ∧ p.encode = data := by
  induction hn : data.length using Nat.strongRecOn generalizing data with
  | ind n ih =>
    by_cases hmessage : IsMessage data
    · obtain ⟨m, hm, hencode⟩ := hmessage
      exact ⟨.message m, by rw [Packet.WellFormed]; exact hm, by rw [Packet.encode, hencode]⟩
    · by_cases hbundle : IsBundle data
      · obtain ⟨rest, hrest, rfl⟩ := hbundle
        match rest, hrest with
        | a :: b :: c :: d :: e :: f :: g :: h :: rest, _ =>
          have hmark : (encodeString (ascii "#bundle")).length = 8 := rfl
          simp only [List.length_append, List.length_cons, hmark] at hn hsize
          obtain ⟨contents, tail, rfl, hno⟩ := exists_elements rest (by omega)
          have hshort (content : Bytes) (hmem : content ∈ contents) :
              content.length < (contents.flatMap element ++ tail).length := by
            obtain ⟨before, after, rfl⟩ := List.append_of_mem hmem
            simp only [List.flatMap_append, List.flatMap_cons, List.length_append, element,
              length_encodeWord]
            omega
          obtain ⟨elements, hall, hmap⟩ := exists_packets contents fun content hmem ↦
            ih _ (by have := hshort content hmem; omega) content
              (by have := hshort content hmem; omega) rfl
          refine ⟨.bundle (ntohl a b c d) (ntohl e f g h) elements tail, ?_, ?_⟩
          · rw [Packet.WellFormed]
            exact ⟨hall, hno⟩
          · rw [Packet.encode, Packet.encodeAll_eq, hmap, encodeWord_ntohl, encodeWord_ntohl]
            simp only [List.append_assoc, List.cons_append, List.nil_append]
      · refine ⟨.other data, ?_, by rw [Packet.encode]⟩
        rw [Packet.WellFormed]
        exact ⟨hmessage, hbundle⟩

end Packets

/-- A packet and the packets in it that the reader gets to are decoded into the messages in them,
in order and whatever their blobs hold, exactly if no blob has a length that is a multiple of four,
no message stands behind an element of no bytes, and nothing else is taken for a message. -/
theorem decodePacket_iff_plain (p : Packet) (hwell : p.WellFormed)
    (hsize : p.encode.length < 2 ^ 31) :
    (∀ q ∈ p.parts, ∀ f : Bytes → Bytes, (∀ content, (f content).length = content.length) →
      decodePacket (q.fill f).encode = (q.fill f).messages.map Sent.message) ↔ p.Plain :=
  exact_parts_iff p hwell hsize

/-- A message, bytes that are none, and a bundle of two messages, with a blob of three bytes and a
byte that is left. -/
private def nested : Packet :=
  .bundle 0 1 [.message { address := ascii "/play", arguments := [.true, .string (ascii "abc")] },
    .other (ascii "/url"),
    .bundle 0 1 [
      .message { address := ascii "/url", arguments := [.blob [1, 2, 3], .symbol (ascii "x")] },
      .message { address := ascii "/n", arguments := [.int 7, .long 0 1, .float 0, .nil] }] [1],
    .other []] []

/-- It is decoded into its three messages. -/
theorem decodePacket_nested :
    decodePacket (nested.fill id).encode = (nested.fill id).messages.map Sent.message := by
  have hother {content : Bytes} (h : content.length < 8) :
      ¬ IsMessage content ∧ ¬ IsBundle content := by
    constructor
    · rintro ⟨m, -, rfl⟩
      have := eight_le_encode m
      omega
    · rintro ⟨rest, -, rfl⟩
      have hmark : (encodeString (ascii "#bundle")).length = 8 := rfl
      rw [List.length_append, hmark] at h
      omega
  have hleft {tail : Bytes} (h : tail.length < 4) : NoElement tail := by
    rintro size rest rfl
    rw [List.length_append, length_encodeWord] at h
    omega
  have hsilent {content : Bytes} (h : content.length < 2 ^ 31) (hnone : decodePacket content = []) :
      ¬ Heard content := by
    rw [← decodePacket_ne_nil h, hnone]
    exact not_not.mpr rfl
  have hwell : nested.WellFormed := by
    simp only [nested, Packet.WellFormed, Packet.WellFormedAll, and_true]
    refine ⟨⟨⟨by decide, by decide, ?_⟩, hother (by decide),
      ⟨⟨⟨by decide, by decide, ?_⟩, by decide, by decide, ?_⟩, hleft (by decide)⟩,
      hother (by decide)⟩, hleft (by decide)⟩
    all_goals simp [Argument.WellFormed, ascii]
  have hnext {p : Packet} {elements : List Packet} (hp : p.Plain) (hsome : p.encode ≠ [])
      (hrest : Packet.PlainAll elements) : Packet.PlainAll (p :: elements) := by
    rw [Packet.PlainAll, if_neg hsome]
    exact ⟨hp, hrest⟩
  have hplain : nested.Plain := by
    rw [nested, Packet.Plain]
    refine hnext ?_ (by decide +kernel) (hnext ?_ (by decide +kernel)
      (hnext ?_ (by decide +kernel) ?_))
    · rw [Packet.Plain]
      decide
    · rw [Packet.Plain]
      exact hsilent (by decide) (by decide +kernel)
    · rw [Packet.Plain]
      refine hnext ?_ (by decide +kernel) (hnext ?_ (by decide +kernel) ?_)
      · rw [Packet.Plain]
        decide
      · rw [Packet.Plain]
        decide
      · rw [Packet.PlainAll]
        trivial
    · simp only [Packet.PlainAll, Packet.Plain, Packet.encode, Packet.messagesAll, if_true, and_true]
      exact hsilent (by decide) rfl
  exact (decodePacket_iff_plain nested hwell (by decide +kernel)).mpr hplain nested nested.mem_parts id
    fun _ ↦ rfl

/-- A message with a blob of four bytes is not decoded. -/
theorem decodePacket_ne_of_even : ¬ ∀ p : Packet, p.WellFormed → p.encode.length < 2 ^ 31 →
    decodePacket p.encode = p.messages.map Sent.message := by
  intro hall
  let m : Sent := { address := ascii "/url", arguments := [.blob [1, 2, 3, 4], .int 7] }
  have hwell : (Packet.message m).WellFormed := by
    rw [Packet.WellFormed]
    exact ⟨by decide, by decide, by simp [m, Argument.WellFormed]⟩
  have hdecoded := hall (.message m) hwell (by decide +kernel)
  have hnone : decodePacket (Packet.message m).encode = [] := by decide +kernel
  rw [hnone] at hdecoded
  cases hdecoded

end WebLinked.Control.Osc
