import TrapChat.Gateway.Handler
import TrapChat.Library.BigEndian
import TrapChat.Library.Framing

/-!
Signatures over a list of strings. `SignHMAC` writes every field to the MAC with
its length in front, in four bytes, so that no field can pass for the end of
another one. A length that does not fit four bytes is cut off by the cast to
`uint32`.

HMAC-SHA256 is a parameter, the function of a key and of what has been written.
-/

namespace TrapChat.Crypto

open Framing Gateway Protocol

/-- A Go string, by its bytes. -/
abbrev GoString := List UInt8

/-- `binary.BigEndian.PutUint32` of `uint32(len(b))`. -/
def lenBuf (b : GoString) : List UInt8 := BigEndian.toBytes 4 b.length

/-- The loop of `SignHMAC`, over what has been written before. -/
def writeFields : List UInt8 → List GoString → List UInt8
  | written, [] => written
  | written, f :: fields => writeFields (written ++ lenBuf f ++ f) fields

/-- All that `SignHMAC` writes to the MAC. -/
def macInput (fields : List GoString) : List UInt8 := writeFields [] fields

section
variable (mac : List UInt8 → List UInt8 → List UInt8)

def signHMAC (key : List UInt8) (fields : List GoString) : List UInt8 := mac key (macInput fields)

def verifyHMAC (key sig : List UInt8) (fields : List GoString) : Bool :=
  sig = signHMAC mac key fields

end

/-! ### The fields of a list -/

/-- A field with its length in front. -/
def prefixed (f : GoString) : List UInt8 := lenBuf f ++ f

theorem writeFields_eq (written : List UInt8) (fields : List GoString) :
    writeFields written fields = written ++ fields.flatMap prefixed := by
  induction fields generalizing written with
  | nil => rw [writeFields, List.flatMap_nil, List.append_nil]
  | cons f fields ih =>
      rw [writeFields, ih, List.flatMap_cons, prefixed, List.append_assoc, List.append_assoc,
        List.append_assoc]

theorem macInput_eq (fields : List GoString) : macInput fields = fields.flatMap prefixed :=
  writeFields_eq [] fields

/-- The length of a field fits its four bytes. -/
def Fits (f : GoString) : Prop := f.length < 256 ^ 4

instance (f : GoString) : Decidable (Fits f) := inferInstanceAs (Decidable (_ < _))

/-- The field at the front of a list of bytes. -/
def readField (d : List UInt8) : Except Unit (GoString × ℕ) :=
  let length := BigEndian.ofBytes (d.take 4)
  if d.length < 4 + length then .error () else .ok ((d.drop 4).take length, 4 + length)

theorem advances_readField : Advances readField := by
  intro d f n h
  rw [readField] at h
  split at h
  · cases h
  · next hlength =>
      cases h
      omega

theorem inverts_prefixed {f : GoString} (h : Fits f) : Inverts readField prefixed f := by
  intro t
  have hlen : (lenBuf f).length = 4 := BigEndian.length_toBytes 4 f.length
  have htake : (prefixed f ++ t).take 4 = lenBuf f := by
    rw [prefixed, List.append_assoc, List.take_left' hlen]
  have hdrop : (prefixed f ++ t).drop 4 = f ++ t := by
    rw [prefixed, List.append_assoc, List.drop_left' hlen]
  have hlength : (prefixed f).length = 4 + f.length := by rw [prefixed, List.length_append, hlen]
  have hread : BigEndian.ofBytes (lenBuf f) = f.length := BigEndian.ofBytes_toBytes h
  rw [readField, htake, hread, hdrop, List.length_append, hlength, if_neg (by omega),
    List.take_left]

/-- **The pre-image is injective.** -/
theorem macInput_inj {fields fields' : List GoString} (h : ∀ f ∈ fields, Fits f)
    (h' : ∀ f ∈ fields', Fits f) : macInput fields = macInput fields' ↔ fields = fields' := by
  refine ⟨fun heq => ?_, congrArg macInput⟩
  rw [macInput_eq, macInput_eq] at heq
  exact flatMap_injOn advances_readField (fun f hf => inverts_prefixed (h f hf))
    (fun f hf => inverts_prefixed (h' f hf)) heq

/-! ### Envelopes -/

/-- The bytes of a string. -/
def goString (s : String) : GoString := s.toByteArray.data.toList

theorem goString_injective : Function.Injective goString := fun s t h => by
  rw [← String.toByteArray_inj]
  exact ByteArray.ext (Array.toList_inj.mp h)

/-- The fields that `signEnvelope` signs. -/
def signedFields (env : Envelope) : List String :=
  [env.id, env.type.wire, env.room, env.payload, toString env.timestamp]

theorem signEnvelope_eq (rt : GoRuntime) (env : Envelope) :
    signEnvelope rt env = { env with sig := rt.signHMAC (signedFields env) } := rfl

/-- `fmt.Sprintf("%d", n)` is the text of a JSON number. -/
theorem toString_int (n : ℤ) : toString n = String.ofList (JsonRecord.renderInt n) := by
  cases n with
  | ofNat n =>
      have hnonneg : ¬Int.ofNat n < 0 := Int.not_lt.mpr (Int.natCast_nonneg n)
      rw [JsonRecord.renderInt, if_neg hnonneg]
      exact Nat.repr_eq_ofList_toDigits
  | negSucc n =>
      have hrepr : toString (n + 1) = String.ofList (Nat.toDigits 10 (n + 1)) :=
        Nat.repr_eq_ofList_toDigits
      rw [JsonRecord.renderInt, if_pos (Int.negSucc_lt_zero n)]
      show "-" ++ toString (n + 1) = String.ofList ('-' :: Nat.toDigits 10 (n + 1))
      rw [hrepr, ← List.singleton_append, String.ofList_append]

theorem toString_int_injective : Function.Injective (toString : ℤ → String) := by
  intro m n h
  have hread : ∀ k : ℤ, JsonRecord.readInt (JsonRecord.renderInt k) = some (k, []) := by
    intro k
    have hend : ∀ c ∈ ([] : List Char).head?, c.isDigit = false := by simp
    simpa using JsonRecord.readInt_render k hend
  rw [toString_int, toString_int, String.ofList_inj] at h
  have hsome := hread m
  rw [h, hread n] at hsome
  exact (congrArg Prod.fst (Option.some.inj hsome)).symm

/-- What a signature covers: everything of an envelope but its addressing and the
signature itself. -/
structure SameSigned (env env' : Envelope) : Prop where
  id : env.id = env'.id
  type : env.type.wire = env'.type.wire
  room : env.room = env'.room
  payload : env.payload = env'.payload
  timestamp : env.timestamp = env'.timestamp

theorem sameSigned_of_fields {env env' : Envelope} (h : signedFields env = signedFields env') :
    SameSigned env env' := by
  simp only [signedFields, List.cons.injEq, and_true] at h
  obtain ⟨hid, htype, hroom, hpayload, htimestamp⟩ := h
  exact ⟨hid, htype, hroom, hpayload, toString_int_injective htimestamp⟩

/-- **A signature fits one list of fields.** The pre-image determines the list; so an
envelope is determined, as far as it is signed, by what is fed to the MAC for it, and
with an injective MAC a signature is accepted for the list it was made for and for no
other. -/
theorem signature_preimage_injective :
    (∀ fields fields' : List GoString, (∀ f ∈ fields, Fits f) → (∀ f ∈ fields', Fits f) →
      (macInput fields = macInput fields' ↔ fields = fields')) ∧
    (∀ env env' : Envelope, (∀ s ∈ signedFields env, Fits (goString s)) →
      (∀ s ∈ signedFields env', Fits (goString s)) →
      macInput ((signedFields env).map goString) = macInput ((signedFields env').map goString) →
      SameSigned env env') ∧
    ∀ (mac : List UInt8 → List UInt8 → List UInt8) (key : List UInt8),
      Function.Injective (mac key) → ∀ made fields : List GoString, (∀ f ∈ made, Fits f) →
        (∀ f ∈ fields, Fits f) →
        (verifyHMAC mac key (signHMAC mac key made) fields = true ↔ fields = made) := by
  refine ⟨fun fields fields' h h' => macInput_inj h h', fun env env' h h' heq => ?_,
    fun mac key hmac made fields h h' => ?_⟩
  · have hmap := (macInput_inj (by simpa using h) (by simpa using h')).mp heq
    exact sameSigned_of_fields (List.map_injective_iff.mpr goString_injective hmap)
  · rw [verifyHMAC, signHMAC, signHMAC, decide_eq_true_eq, hmac.eq_iff, macInput_inj h h']
    exact eq_comm

/-- A field that is cut elsewhere gives other bytes, and a signature for the one list is
refused for the other. -/
theorem signature_preimage_injective_split :
    (macInput [[97], [98]] = macInput [[97, 98], []] ↔
      ([[97], [98]] : List GoString) = [[97, 98], []]) ∧
    (verifyHMAC (fun key written => key ++ written) [1]
      (signHMAC (fun key written => key ++ written) [1] [[97], [98]]) [[97, 98], []] = true ↔
        ([[97, 98], []] : List GoString) = [[97], [98]]) := by
  have hfit : ∀ f ∈ ([[97], [98]] : List GoString), Fits f := by decide
  have hfit' : ∀ f ∈ ([[97, 98], []] : List GoString), Fits f := by decide
  exact ⟨signature_preimage_injective.1 _ _ hfit hfit',
    signature_preimage_injective.2.2 _ _ (List.append_right_injective _) _ _ hfit hfit'⟩

end TrapChat.Crypto
