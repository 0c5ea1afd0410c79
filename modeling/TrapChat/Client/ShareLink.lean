import TrapChat.Library.Base64
import TrapChat.Library.PercentEncoding

/-!
The share link of a room: the room name and the room's key behind the `#`, with
a slash between them. `setupRoomKey` builds it; when the page is opened through
the link, one effect reads both parts and the join form's initial state reads the
room name. The key is in standard base64, whose alphabet has the slash too.
-/

namespace TrapChat.Client

/-- What `encodeURIComponent` leaves as it is. -/
def uriSafe (c : Char) : Bool :=
  c.isAlphanum || c = '-' || c = '_' || c = '.' || c = '!' || c = '~' || c = '*' ||
    c = Char.ofNat 39 || c = '(' || c = ')'

def encodeURIComponent (s : String) : String :=
  String.ofList (PercentEncoding.encodeChars uriSafe s.toList)

/-- `none` where the source throws. -/
def decodeURIComponent (s : String) : Option String := PercentEncoding.decodeChars s.toList

/-- An AES key, by its bytes. -/
structure AesKey where
  raw : List UInt8
  size : raw.length = 16 ∨ raw.length = 24 ∨ raw.length = 32
  deriving DecidableEq

def exportKey (key : AesKey) : String := Base64.encode key.raw

/-- `none` where the source throws: no base64, or no length of an AES key. -/
def importKey (base64 : String) : Option AesKey :=
  match Base64.decodeForgiving base64 with
  | none => none
  | some raw =>
    if h : raw.length = 16 ∨ raw.length = 24 ∨ raw.length = 32 then some ⟨raw, h⟩ else none

/-- What `keyRefs` holds for a room: the text of a key until it is imported. -/
inductive KeyRef
  | fragment (text : String)
  | key (key : AesKey)

/-- A link to the page, which is the origin and the path. -/
def shareLink (page room exported : String) : String :=
  page ++ "#" ++ encodeURIComponent room ++ "/" ++ exported

/-- `setupRoomKey`: the key of a room and its share link. `derived` is the key of
the passphrase, `none` when that is blank, and `generated` a fresh one. -/
def setupRoomKey (page : String) (keyRef : Option KeyRef) (trimmed : String)
    (derived : Option AesKey) (generated : AesKey) : Option (AesKey × String) :=
  let withKey (key : AesKey) := (key, shareLink page trimmed (exportKey key))
  let withoutRef :=
    match derived with
    | some key => some (key, shareLink page trimmed "")
    | none => some (withKey generated)
  match keyRef with
  | some (.fragment text) => if text = "" then withoutRef else (importKey text).map withKey
  | some (.key key) =>
    match derived with
    | some derived => some (derived, shareLink page trimmed "")
    | none => some (withKey key)
  | none => withoutRef

/-- `window.location.hash` of a page opened through a link. -/
def locationHash (link : String) : List Char :=
  match link.toList.dropWhile (· ≠ '#') with
  | ['#'] => []
  | hash => hash

/-- The effect on mount: the entry it makes in `keyRefs`. -/
def parseFragment (locationHash : List Char) : Option (String × String) :=
  let hash := locationHash.drop 1
  if '/' ∈ hash then
    match (hash.splitOn '/').take 2 with
    | [roomName, keyFragment] =>
      if roomName ≠ [] ∧ keyFragment ≠ [] then
        (decodeURIComponent (String.ofList roomName)).map (·, String.ofList keyFragment)
      else none
    | _ => none
  else none

/-- The room name the join form starts with, `none` where one is generated. -/
def initialJoinRoom (locationHash : List Char) : Option String :=
  let hash := locationHash.drop 1
  if '/' ∈ hash then
    match (hash.splitOn '/').take 2 with
    | roomName :: _ =>
      if roomName ≠ [] then decodeURIComponent (String.ofList roomName) else none
    | [] => none
  else none

/-! ### Keys -/

/-- A key survives export and import. -/
theorem importKey_exportKey (key : AesKey) : importKey (exportKey key) = some key := by
  unfold importKey exportKey
  rw [Base64.decodeForgiving_encode]
  dsimp only
  rw [dif_pos key.size]

theorem exportKey_ne_nil (key : AesKey) : (exportKey key).toList ≠ [] := by
  have hraw : key.raw ≠ [] := by
    intro h
    have hsize := key.size
    rw [h] at hsize
    simp at hsize
  rw [exportKey, Base64.encode, String.toList_ofList]
  exact Base64.encodeChars_ne_nil hraw

/-! ### Links -/

theorem decodeURIComponent_encodeURIComponent (s : String) :
    decodeURIComponent (encodeURIComponent s) = some s := by
  rw [decodeURIComponent, encodeURIComponent, String.toList_ofList]
  exact PercentEncoding.decodeChars_encodeChars (by decide) s

/-- The separator is not in an encoded room name. -/
theorem slash_notMem_encodeURIComponent (s : String) : '/' ∉ (encodeURIComponent s).toList := by
  rw [encodeURIComponent, String.toList_ofList]
  intro h
  rcases PercentEncoding.mem_encodeChars h with h | h | h <;> revert h <;> decide

theorem encodeURIComponent_ne_nil {s : String} (h : s ≠ "") :
    (encodeURIComponent s).toList ≠ [] := by
  rw [encodeURIComponent, String.toList_ofList]
  apply PercentEncoding.encodeChars_ne_nil
  intro hnil
  exact h (String.toList_eq_nil_iff.mp hnil)

theorem locationHash_shareLink {page : String} (hpage : '#' ∉ page.toList) (room exported : String) :
    locationHash (shareLink page room exported) =
      '#' :: ((encodeURIComponent room).toList ++ '/' :: exported.toList) := by
  have hdrop : (shareLink page room exported).toList.dropWhile (· ≠ '#') =
      '#' :: ((encodeURIComponent room).toList ++ '/' :: exported.toList) := by
    have htext : (shareLink page room exported).toList =
        page.toList ++ '#' :: ((encodeURIComponent room).toList ++ '/' :: exported.toList) := by
      simp [shareLink]
    rw [htext, List.dropWhile_append_of_pos]
    · simp
    · intro c hc
      simp only [decide_eq_true_eq]
      rintro rfl
      exact hpage hc
  unfold locationHash
  rw [hdrop]
  split
  · rename_i h
    simp at h
  · rfl

/-- The first piece of a text is the whole of it exactly when there is no
separator. -/
theorem splitOn_head (cs : List Char) : ∃ piece more, cs.splitOn '/' = piece :: more ∧
    (piece = cs ↔ '/' ∉ cs) := by
  by_cases h : '/' ∈ cs
  · obtain ⟨piece, tail, rfl, hpiece⟩ := List.eq_append_cons_of_mem h
    refine ⟨piece, tail.splitOn '/', List.splitOn_append_cons_self_of_not_mem hpiece tail, ?_⟩
    refine iff_of_false (fun heq => ?_) (fun hnot => hnot h)
    have hlen := congrArg List.length heq
    simp at hlen
  · exact ⟨cs, [], List.splitOn_eq_singleton h, iff_of_true rfl h⟩

/-- The two pieces of a link's fragment: the encoded room name, and the exported
key up to its first slash. -/
theorem pieces_shareLink (room exported : String) : ∃ piece,
    (((encodeURIComponent room).toList ++ '/' :: exported.toList).splitOn '/').take 2 =
      [(encodeURIComponent room).toList, piece] ∧
    (piece = exported.toList ↔ '/' ∉ exported.toList) := by
  obtain ⟨piece, more, hsplit, hpiece⟩ := splitOn_head exported.toList
  refine ⟨piece, ?_, hpiece⟩
  rw [List.splitOn_append_cons_self_of_not_mem (slash_notMem_encodeURIComponent room), hsplit]
  rfl

section
variable {page room : String}

/-- The form is filled in with the room of the link, whatever the key. -/
theorem initialJoinRoom_shareLink (hpage : '#' ∉ page.toList) (hroom : room ≠ "")
    (exported : String) :
    initialJoinRoom (locationHash (shareLink page room exported)) = some room := by
  obtain ⟨piece, hpieces, -⟩ := pieces_shareLink room exported
  rw [locationHash_shareLink hpage]
  unfold initialJoinRoom
  show (if '/' ∈ (encodeURIComponent room).toList ++ '/' :: exported.toList then _ else _) = _
  rw [if_pos (by simp), List.drop_one, List.tail_cons, hpieces]
  dsimp only
  rw [if_pos (encodeURIComponent_ne_nil hroom), String.ofList_toList,
    decodeURIComponent_encodeURIComponent]

theorem parseFragment_shareLink (hpage : '#' ∉ page.toList) (hroom : room ≠ "")
    (exported : String) : ∃ piece,
      parseFragment (locationHash (shareLink page room exported)) =
        (if piece ≠ [] then some (room, String.ofList piece) else none) ∧
      (piece = exported.toList ↔ '/' ∉ exported.toList) := by
  obtain ⟨piece, hpieces, hwhole⟩ := pieces_shareLink room exported
  refine ⟨piece, ?_, hwhole⟩
  rw [locationHash_shareLink hpage]
  unfold parseFragment
  show (if '/' ∈ (encodeURIComponent room).toList ++ '/' :: exported.toList then _ else _) = _
  rw [if_pos (by simp), List.drop_one, List.tail_cons, hpieces]
  dsimp only
  by_cases hpiece : piece = []
  · rw [if_neg (fun h => h.2 hpiece), if_neg (not_not.mpr hpiece)]
  · rw [if_pos ⟨encodeURIComponent_ne_nil hroom, hpiece⟩, if_pos hpiece, String.ofList_toList,
      decodeURIComponent_encodeURIComponent]
    rfl

/-- Opening a link recovers the room name and the exported key, which imports to
the key itself. -/
def Recovers (link room : String) (key : AesKey) : Prop :=
  initialJoinRoom (locationHash link) = some room ∧
    ∃ fragment, parseFragment (locationHash link) = some (room, fragment) ∧
      fragment = exportKey key ∧ importKey fragment = some key

/-- A link carries the exported key or, for a passphrase, none. -/
theorem setupRoomKey_link {keyRef : Option KeyRef} {derived : Option AesKey}
    {generated key : AesKey} {link : String}
    (h : setupRoomKey page keyRef room derived generated = some (key, link)) :
    link = shareLink page room (exportKey key) ∨ link = shareLink page room "" := by
  have hwithout : ∀ fallback, (match derived with
      | some derived => some (derived, shareLink page room "")
      | none => some (fallback, shareLink page room (exportKey fallback))) = some (key, link) →
      link = shareLink page room (exportKey key) ∨ link = shareLink page room "" := by
    intro fallback h
    cases derived with
    | none =>
        cases h
        exact .inl rfl
    | some derived =>
        cases h
        exact .inr rfl
  match keyRef with
  | none => exact hwithout _ h
  | some (.key key') => exact hwithout _ h
  | some (.fragment text) =>
      by_cases htext : text = ""
      · simp only [setupRoomKey, htext, if_true] at h
        exact hwithout _ h
      · simp only [setupRoomKey, htext, if_false] at h
        obtain ⟨imported, -, himported⟩ := Option.map_eq_some_iff.mp h
        cases himported
        exact .inl rfl

/-- **Share-link round trip.** A link that `setupRoomKey` builds with a key in it
is read back exactly when the exported key has no slash. -/
theorem shareLink_roundTrip_iff (hpage : '#' ∉ page.toList) (hroom : room ≠ "")
    (keyRef : Option KeyRef) (derived : Option AesKey) (generated key : AesKey) (link : String)
    (hsetup : setupRoomKey page keyRef room derived generated = some (key, link))
    (hlink : link ≠ shareLink page room "") :
    Recovers link room key ↔ '/' ∉ (exportKey key).toList := by
  obtain rfl := (setupRoomKey_link hsetup).resolve_right hlink
  obtain ⟨piece, hparse, hwhole⟩ := parseFragment_shareLink hpage hroom (exportKey key)
  constructor
  · rintro ⟨-, fragment, hfragment, rfl, -⟩
    apply hwhole.mp
    rw [hparse] at hfragment
    split at hfragment
    · have hpair := Option.some.inj hfragment
      rw [← String.toList_ofList (l := piece), (Prod.mk.inj hpair).2]
    · cases hfragment
  · intro hslash
    have hpiece : piece = (exportKey key).toList := hwhole.mpr hslash
    refine ⟨initialJoinRoom_shareLink hpage hroom _, exportKey key, ?_, rfl,
      importKey_exportKey key⟩
    rw [hparse, hpiece, if_pos (exportKey_ne_nil key), String.ofList_toList]

end

/-- The key whose bits are all set. -/
def onesKey : AesKey := ⟨List.replicate 32 255, .inr (.inr rfl)⟩

/-- The key whose bits are all clear. -/
def zeroKey : AesKey := ⟨List.replicate 32 0, .inr (.inr rfl)⟩

theorem shareLink_roundTrip_zeroKey :
    Recovers (shareLink "https://chat/" "room" (exportKey zeroKey)) "room" zeroKey :=
  (shareLink_roundTrip_iff (by decide) (by decide) none none zeroKey zeroKey _ rfl
    (by decide)).mpr (by decide)

/-- The exported key begins with the separator, and nothing of it is read. -/
theorem shareLink_onesKey_lost :
    setupRoomKey "https://chat/" none "room" none onesKey =
      some (onesKey, shareLink "https://chat/" "room" (exportKey onesKey)) ∧
    ¬Recovers (shareLink "https://chat/" "room" (exportKey onesKey)) "room" onesKey := by
  refine ⟨rfl, ?_⟩
  rintro ⟨-, fragment, hfragment, -⟩
  have hnone : parseFragment (locationHash
      (shareLink "https://chat/" "room" (exportKey onesKey))) = none := by decide
  rw [hnone] at hfragment
  cases hfragment

end TrapChat.Client
