import TrapChat.Client.Media

/-!
The text form of AES-GCM. `crypto.subtle` encrypts bytes under an initialisation
vector; `encrypt` puts the vector in front of the ciphertext and writes both in
Base64, and `decrypt` takes them apart again.
-/

namespace TrapChat.Client

/-- AES-GCM in `crypto.subtle`: what it makes of bytes under a key and an initialisation
vector. `decrypt` is `none` where it throws. -/
structure SubtleCrypto where
  Key : Type
  encrypt : Key → Bytes → Bytes → Bytes
  decrypt : Key → Bytes → Bytes → Option Bytes

/-- The authentication tag makes the ciphertext 16 bytes longer. -/
def SubtleCrypto.Tagged (subtle : SubtleCrypto) : Prop :=
  ∀ key iv data, (subtle.encrypt key iv data).length = data.length + 16

namespace Crypto

def IV_LENGTH : ℕ := 12

def uint8ToBase64 (bytes : Bytes) : String := Base64.encode bytes

def base64ToUint8 (base64 : String) : Option Bytes := Base64.decodeForgiving base64

/-- `new TextEncoder().encode`. -/
def encodeText (text : String) : Bytes := text.toByteArray.data.toList

section
variable (subtle : SubtleCrypto)

def encrypt (key : subtle.Key) (iv : Bytes) (plaintext : String) : String :=
  uint8ToBase64 (iv ++ subtle.encrypt key iv (encodeText plaintext))

def decrypt (decodeText : Bytes → String) (key : subtle.Key) (encoded : String) : Option String := do
  let data ← base64ToUint8 encoded
  let plaintext ← subtle.decrypt key (data.take IV_LENGTH) (data.drop IV_LENGTH)
  some (decodeText plaintext)

/-- The cipher on text, with the initialisation vectors that it draws and the text
decoder. -/
def aesGcm (getRandomValues : ℕ → Fin IV_LENGTH → UInt8) (decodeText : Bytes → String) :
    AesGcm where
  Key := subtle.Key
  encrypt key iv plaintext := encrypt subtle key (List.ofFn (getRandomValues iv)) plaintext
  decrypt key encoded := decrypt subtle decodeText key encoded

end

theorem encodeText_length (text : String) : (encodeText text).length = text.utf8ByteSize := rfl

/-- A ciphertext is the Base64 of 28 bytes more than its text has. -/
theorem encrypt_aesGcm {subtle : SubtleCrypto} (h : subtle.Tagged)
    (getRandomValues : ℕ → Fin IV_LENGTH → UInt8) (decodeText : Bytes → String)
    (key : subtle.Key) (iv : ℕ) (plaintext : String) :
    ∃ bytes : Bytes, (aesGcm subtle getRandomValues decodeText).encrypt key iv plaintext =
        Base64.encode bytes ∧ bytes.length = plaintext.utf8ByteSize + 28 := by
  refine ⟨_, rfl, ?_⟩
  rw [List.length_append, List.length_ofFn, h, encodeText_length, IV_LENGTH]
  omega

end Crypto

end TrapChat.Client
