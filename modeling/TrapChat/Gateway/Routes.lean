import TrapChat.Gateway.RoomApi
import TrapChat.Library.UrlPath

/-!
How a request gets to the gateway's handlers: `http.ServeMux` with the patterns that `main`
registers. A path that is not clean is redirected to the clean one; the others are matched
segment by segment, and the handler sees the whole path unescaped once.
-/

namespace TrapChat.Gateway

open Storage

/-- The handlers of `main`. -/
inductive Route
  | health
  | healthAll
  | metrics
  | webSocket
  | rooms
  | roomSub
  | notFound
deriving DecidableEq, Repr

/-- Only the last pattern ends in a slash, and so takes every path below it. -/
def matchPattern (segs : List String) : Route :=
  if segs = ["health"] then .health
  else if segs = ["health", "all"] then .healthAll
  else if segs = ["metrics"] then .metrics
  else if segs = ["ws"] then .webSocket
  else if segs = ["api", "rooms"] then .rooms
  else if segs.take 2 = ["api", "rooms"] then .roomSub
  else .notFound

/-- A segment that cannot be unescaped stays as it is. -/
def pathUnescape (seg : List Char) : String :=
  (PercentEncoding.decodeChars seg).getD (String.ofList seg)

inductive Served
  | badRequest
  | redirect (path : List Char)
  /-- `r.URL.Path` is the second argument. -/
  | handled (route : Route) (path : String)
deriving DecidableEq, Repr

/-- The path as it stands in the request. -/
def serveMux (target : List Char) : Served :=
  match PercentEncoding.decodeChars target with
  | none => .badRequest
  | some path =>
    if UrlPath.clean target ≠ target then .redirect (UrlPath.clean target)
    else .handled (matchPattern ((UrlPath.segments target).map pathUnescape)) path

/-- What `handleRoomSub` reads off a path. -/
def resolveRoomSub (path : String) : Option (RoomName × String) :=
  (roomSubPath path).bind fun (name, action) =>
    (PercentEncoding.decodeChars name).map fun room => (room, action)

/-- What `handleRoomSub` then does; `order` is that in which a cleanup takes the members. -/
def roomAction (rt : GoRuntime) (cfg : ApiConfig) (s : Server) (room : RoomName)
    (action : String) (r : Request) (order : List PeerID) (now : Time) :
    Server × List Output × Response :=
  if action = "info" ∨ action = "ttl" then
    if r.method ≠ "GET" then (s, [], ⟨405, "method not allowed"⟩) else (s, [], ok)
  else if action = "cleanup" then
    if r.method ≠ "POST" then (s, [], ⟨405, "method not allowed"⟩)
    else
      let (s, outs) := cleanupRoom s room "__cleanup__" order now
      (s, outs, ok)
  else if action = "broadcast" then
    if r.method ≠ "POST" then (s, [], ⟨405, "method not allowed"⟩)
    else (s, handleBroadcast rt cfg s room r.body now)
  else (s, [], ⟨404, "not found"⟩)

section
variable {rt : GoRuntime} {cfg : ApiConfig} {s : Server} {r : Request} {order : List PeerID}
  {now : Time}

/-- **The handler acts on the room that it has read off the path.** -/
theorem handleRoomSub_of_resolved {room : RoomName} {action : String}
    (hauth : checkAuth cfg.authToken r = true)
    (hresolved : resolveRoomSub r.path = some (room, action)) :
    handleRoomSub rt cfg s r order now = roomAction rt cfg s room action r order now := by
  obtain ⟨⟨name, action'⟩, hpath, hname⟩ := Option.bind_eq_some_iff.mp hresolved
  obtain ⟨room', hdecode, heq⟩ := Option.map_eq_some_iff.mp hname
  obtain ⟨rfl, rfl⟩ := Prod.mk.inj heq
  simp only [handleRoomSub, hauth, hpath, hdecode, Bool.not_true, Bool.false_eq_true, if_false]
  rfl

theorem roomAction_cleanup {room : RoomName} (hmethod : r.method = "POST") :
    roomAction rt cfg s room "cleanup" r order now =
      ((cleanupRoom s room "__cleanup__" order now).1,
        (cleanupRoom s room "__cleanup__" order now).2, ok) := by
  rw [roomAction, if_neg (by decide), if_pos rfl, if_neg (not_not.mpr hmethod)]

theorem handleRoomSub_of_unresolved (hauth : checkAuth cfg.authToken r = true)
    (hresolved : resolveRoomSub r.path = none) :
    handleRoomSub rt cfg s r order now = (s, [], ⟨404, "not found"⟩) ∨
      handleRoomSub rt cfg s r order now = (s, [], ⟨400, "invalid room name encoding"⟩) := by
  rw [handleRoomSub, hauth]
  cases hpath : roomSubPath r.path with
  | none => exact .inl rfl
  | some found =>
      have hname : PercentEncoding.decodeChars found.1 = none := by
        rwa [resolveRoomSub, hpath, Option.bind_some, Option.map_eq_none_iff] at hresolved
      refine .inr ?_
      show (match PercentEncoding.decodeChars found.1 with
        | none => _
        | some room => _) = _
      rw [hname]

end

/-! ### Paths that need no cleaning -/

theorem serveMux_render {segs : List (List Char)} (hne : segs ≠ [])
    (hplain : ∀ seg ∈ segs, seg ≠ [] ∧ '/' ∉ seg ∧ UrlPath.isDoubleDot seg = false ∧
      UrlPath.isSingleDot seg = false) {path : String}
    (hpath : PercentEncoding.decodeChars (UrlPath.render segs) = some path) :
    serveMux (UrlPath.render segs) = .handled (matchPattern (segs.map pathUnescape)) path := by
  rw [serveMux, hpath]
  dsimp only
  rw [if_neg (not_not.mpr (UrlPath.clean_render hne hplain)),
    UrlPath.segments_render fun seg hmem => (hplain seg hmem).2.1]

end TrapChat.Gateway
