import TrapChat.Gateway.Routes
import TrapChat.Network.RoomNames
import TrapChat.Worker.RoomCleanup

/-!
From a room's name to its handler: the URL that the worker writes, the path that `fetch`
makes of it, the route and the path that the gateway's server makes of that, and the name
and the action that `handleRoomSub` reads off it.
-/

namespace TrapChat.Network

open Gateway Storage
open Worker (RoomAction FetchRequest roomRequest)
open Client (uriSafe encodeURIComponent)

/-- The room and the action that a request is for, where `handleRoomSub` gets it. A redirect
is none of its answers. -/
def addressed (request : FetchRequest) : Option (RoomName × String) :=
  match serveMux (UrlPath.pathname request.url.toList) with
  | .handled .roomSub path => resolveRoomSub path
  | _ => none

/-- The segments of the URL's path as the worker writes it. -/
def roomSegments (name : String) (action : RoomAction) : List (List Char) :=
  ["api".toList, "rooms".toList, (encodeURIComponent name).toList, action.word.toList]

variable {goRt : GoRuntime} {gatewayURL name : String} {action : RoomAction}

theorem url_roomRequest (gatewayURL name : String) (action : RoomAction) :
    (roomRequest gatewayURL name action).url.toList =
      gatewayURL.toList ++ UrlPath.render (roomSegments name action) := by
  simp [roomRequest, roomSegments, UrlPath.render]

theorem render_roomSegments (name : String) (action : RoomAction) :
    UrlPath.render (roomSegments name action) =
      roomsPath ++ ((encodeURIComponent name).toList ++ '/' :: action.word.toList) := by
  have hfront : roomsPath = '/' :: "api".toList ++ '/' :: "rooms".toList ++ ['/'] := by decide
  rw [hfront]
  simp only [UrlPath.render, roomSegments, List.flatMap_cons, List.flatMap_nil, List.append_nil,
    List.append_assoc, List.cons_append, List.nil_append]

theorem forall_roomSegments {P : List Char → Prop} (hapi : P "api".toList)
    (hrooms : P "rooms".toList) (hname : P (encodeURIComponent name).toList)
    (hword : P action.word.toList) : ∀ seg ∈ roomSegments name action, P seg := by
  intro seg hseg
  simp only [roomSegments, List.mem_cons, List.not_mem_nil, or_false] at hseg
  obtain rfl | rfl | rfl | rfl := hseg
  · exact hapi
  · exact hrooms
  · exact hname
  · exact hword

theorem slash_notMem_roomSegments : ∀ seg ∈ roomSegments name action, '/' ∉ seg :=
  forall_roomSegments (by decide) (by decide) (Client.slash_notMem_encodeURIComponent name)
    (by cases action <;> decide)

theorem roomSegments_ne_nil : roomSegments name action ≠ [] := List.cons_ne_nil _ _

/-- The path that is asked for. -/
theorem pathname_roomRequest (horigin : UrlPath.IsOrigin gatewayURL.toList) (name : String)
    (action : RoomAction) : UrlPath.pathname (roomRequest gatewayURL name action).url.toList =
      UrlPath.render (UrlPath.addSegments [] (roomSegments name action)) := by
  rw [url_roomRequest, UrlPath.pathname_append_render horigin roomSegments_ne_nil
    slash_notMem_roomSegments]

/-! ### The names that the gateway accepts -/

/-- A character that no name has. -/
theorem notMem_of_valid (hvalid : validateRoomName goRt name = "") {c : Char}
    (hletter : goRt.isLetter c = false) (hnumber : goRt.isNumber c = false)
    (hpunctuation : c ∉ roomPunctuation) : c ∉ name.toList := by
  intro hc
  obtain h | h | h := (validateRoomName_eq_empty_iff.mp hvalid).2.2 c hc
  · rw [hletter] at h
    cases h
  · rw [hnumber] at h
    cases h
  · exact hpunctuation h

theorem decodeChars_encodeURIComponent (name : String) :
    PercentEncoding.decodeChars (encodeURIComponent name).toList = some name :=
  Client.decodeURIComponent_encodeURIComponent name

/-- Only the two names themselves are taken for dot segments. -/
theorem plain_encodeURIComponent (hdot : name ≠ ".") (hdots : name ≠ "..") :
    UrlPath.isDoubleDot (encodeURIComponent name).toList = false ∧
      UrlPath.isSingleDot (encodeURIComponent name).toList = false := by
  constructor
  · refine Bool.eq_false_iff.mpr fun h => hdots ?_
    have hdecode := UrlPath.decodeChars_of_isDoubleDot h
    exact Option.some.inj ((decodeChars_encodeURIComponent name).symm.trans hdecode)
  · refine Bool.eq_false_iff.mpr fun h => hdot ?_
    have hdecode := UrlPath.decodeChars_of_isSingleDot h
    exact Option.some.inj ((decodeChars_encodeURIComponent name).symm.trans hdecode)

/-! ### The names that are no dot segments -/

/-- What a path shows as it is. -/
def pathSafe (c : Char) : Bool := uriSafe c || c = '/'

theorem encodeChars_name (hslash : '/' ∉ name.toList) :
    PercentEncoding.encodeChars pathSafe name.toList = (encodeURIComponent name).toList := by
  rw [encodeURIComponent, String.toList_ofList]
  refine PercentEncoding.encodeChars_congr fun c hc => ?_
  have hne : c ≠ '/' := fun heq => hslash (heq ▸ hc)
  rw [pathSafe, decide_eq_false hne, Bool.or_false]

/-- The server unescapes the path to the name itself between slashes. -/
theorem decodeChars_render (hslash : '/' ∉ name.toList) :
    PercentEncoding.decodeChars (UrlPath.render (roomSegments name action)) =
      some (String.ofList (roomsPath ++ (name.toList ++ '/' :: action.word.toList))) := by
  have hfront : PercentEncoding.encodeChars pathSafe roomsPath = roomsPath :=
    PercentEncoding.encodeChars_of_safe (List.all_eq_true.mp (by decide))
  have hback : PercentEncoding.encodeChars pathSafe ('/' :: action.word.toList) =
      '/' :: action.word.toList :=
    PercentEncoding.encodeChars_of_safe (List.all_eq_true.mp (by cases action <;> decide))
  have hencode : PercentEncoding.encodeChars pathSafe
      (roomsPath ++ (name.toList ++ '/' :: action.word.toList)) =
        roomsPath ++ ((encodeURIComponent name).toList ++ '/' :: action.word.toList) := by
    rw [PercentEncoding.encodeChars_append, PercentEncoding.encodeChars_append, hfront, hback,
      encodeChars_name hslash]
  have hdecode : ∀ text : String, PercentEncoding.decodeChars
      (PercentEncoding.encodeChars pathSafe text.toList) = some text :=
    PercentEncoding.decodeChars_encodeChars (by decide)
  rw [render_roomSegments, ← hencode, ← hdecode, String.toList_ofList]

theorem resolveRoomSub_name (hne : name ≠ "") (hslash : '/' ∉ name.toList)
    (hpercent : '%' ∉ name.toList) (action : String) :
    resolveRoomSub (String.ofList (roomsPath ++ (name.toList ++ '/' :: action.toList))) =
      some (name, action) := by
  have hnil : name.toList ≠ [] := by simpa using hne
  rw [resolveRoomSub, roomSubPath_of_name hnil hslash, Option.bind_some]
  show (PercentEncoding.decodeChars name.toList).map _ = _
  rw [PercentEncoding.decodeChars_of_plain hpercent, String.ofList_toList]
  rfl

theorem addressed_roomRequest (horigin : UrlPath.IsOrigin gatewayURL.toList) (hne : name ≠ "")
    (hslash : '/' ∉ name.toList) (hpercent : '%' ∉ name.toList) (hdot : name ≠ ".")
    (hdots : name ≠ "..") :
    addressed (roomRequest gatewayURL name action) = some (name, action.word) := by
  have hplain : ∀ seg ∈ roomSegments name action,
      UrlPath.isDoubleDot seg = false ∧ UrlPath.isSingleDot seg = false :=
    forall_roomSegments (by decide) (by decide) (plain_encodeURIComponent hdot hdots)
      (by cases action <;> decide)
  have hsome : ∀ seg ∈ roomSegments name action, seg ≠ [] :=
    forall_roomSegments (by decide) (by decide) (Client.encodeURIComponent_ne_nil hne)
      (by cases action <;> decide)
  have hseg : ∀ seg ∈ roomSegments name action, seg ≠ [] ∧ '/' ∉ seg ∧
      UrlPath.isDoubleDot seg = false ∧ UrlPath.isSingleDot seg = false :=
    fun seg hmem => ⟨hsome seg hmem, slash_notMem_roomSegments seg hmem, hplain seg hmem⟩
  have hpath : UrlPath.pathname (roomRequest gatewayURL name action).url.toList =
      UrlPath.render (roomSegments name action) := by
    rw [pathname_roomRequest horigin, UrlPath.addSegments_plain hplain, List.nil_append]
  have hroute : matchPattern ((roomSegments name action).map pathUnescape) = .roomSub := by
    have hapi : pathUnescape "api".toList = "api" := by decide
    have hrooms : pathUnescape "rooms".toList = "rooms" := by decide
    rw [roomSegments, List.map_cons, List.map_cons, hapi, hrooms]
    simp [matchPattern]
  rw [addressed, hpath, serveMux_render roomSegments_ne_nil hseg (decodeChars_render hslash),
    hroute]
  exact resolveRoomSub_name hne hslash hpercent action.word

/-! ### The names that are -/

theorem addressed_dot (horigin : UrlPath.IsOrigin gatewayURL.toList) :
    addressed (roomRequest gatewayURL "." action) = none := by
  have hpath : UrlPath.pathname (roomRequest gatewayURL "." action).url.toList =
      UrlPath.render ["api".toList, "rooms".toList, action.word.toList] := by
    rw [pathname_roomRequest horigin]
    cases action <;> decide
  rw [addressed, hpath]
  cases action <;> decide

theorem addressed_dots (horigin : UrlPath.IsOrigin gatewayURL.toList) :
    addressed (roomRequest gatewayURL ".." action) = none := by
  have hpath : UrlPath.pathname (roomRequest gatewayURL ".." action).url.toList =
      UrlPath.render ["api".toList, action.word.toList] := by
    rw [pathname_roomRequest horigin]
    cases action <;> decide
  rw [addressed, hpath]
  cases action <;> decide

/-- **A valid room is addressed by its URLs unless its name is a dot segment.** -/
theorem addressed_roomRequest_iff (hvalid : validateRoomName goRt name = "")
    (hslash : goRt.isLetter '/' = false ∧ goRt.isNumber '/' = false)
    (hpercent : goRt.isLetter '%' = false ∧ goRt.isNumber '%' = false)
    (horigin : UrlPath.IsOrigin gatewayURL.toList) (action : RoomAction) :
    addressed (roomRequest gatewayURL name action) = some (name, action.word) ↔
      name ≠ "." ∧ name ≠ ".." := by
  constructor
  · intro h
    constructor
    · rintro rfl
      rw [addressed_dot horigin] at h
      cases h
    · rintro rfl
      rw [addressed_dots horigin] at h
      cases h
  · rintro ⟨hdot, hdots⟩
    have hne : name ≠ "" := (validateRoomName_eq_empty_iff.mp hvalid).1
    have hslash' := notMem_of_valid hvalid hslash.1 hslash.2 (by decide)
    have hpercent' := notMem_of_valid hvalid hpercent.1 hpercent.2 (by decide)
    exact addressed_roomRequest horigin hne hslash' hpercent' hdot hdots

/-- The gateway's own URL, as it submits it with a job. -/
theorem isOrigin_localhost (port : String) (h : port.toList.all Char.isDigit = true) :
    UrlPath.IsOrigin ("http://localhost:" ++ port).toList := by
  refine ⟨"http".toList, "localhost:".toList ++ port.toList, ?_, by decide, by simp, ?_⟩
  · have hfront : "http://localhost:".toList = "http".toList ++ "://".toList ++
        "localhost:".toList := by decide
    rw [String.toList_append, hfront, List.append_assoc _ "localhost:".toList]
  · intro c hc
    have hhost : ("localhost:".toList.all fun c => decide (c ∉ ['/', '\\', '?', '#'])) = true := by
      decide
    have hdigits : (['/', '\\', '?', '#'].all fun c => !c.isDigit) = true := by decide
    obtain hname | hport := List.mem_append.mp hc
    · exact of_decide_eq_true (List.all_eq_true.mp hhost c hname)
    · intro hmem
      have hdigit := List.all_eq_true.mp hdigits c hmem
      rw [List.all_eq_true.mp h c hport] at hdigit
      cases hdigit

theorem addressed_lobby :
    addressed (roomRequest "http://localhost:8080" "lobby" .info) = some ("lobby", "info") ↔
      "lobby" ≠ "." ∧ "lobby" ≠ ".." :=
  addressed_roomRequest_iff (show validateRoomName (asciiRuntime "" {}) "lobby" = "" by decide)
    (by decide) (by decide) (isOrigin_localhost "8080" (by decide)) .info

/-- A room by the name of two dots is valid, and its URLs lead elsewhere. -/
theorem valid_unaddressed : ¬∀ (goRt : GoRuntime) (gatewayURL name : String),
    goRt.isLetter '/' = false ∧ goRt.isNumber '/' = false →
    goRt.isLetter '%' = false ∧ goRt.isNumber '%' = false →
    UrlPath.IsOrigin gatewayURL.toList → validateRoomName goRt name = "" →
      ∀ action : RoomAction,
        addressed (roomRequest gatewayURL name action) = some (name, action.word) := by
  intro h
  have horigin : UrlPath.IsOrigin "http://localhost:8080".toList :=
    isOrigin_localhost "8080" (by decide)
  have hdots := h (asciiRuntime "" {}) _ ".." (by decide) (by decide) horigin (by decide) .info
  rw [addressed_dots horigin] at hdots
  cases hdots

/-! ### What becomes of a room -/

/-- The request as the handler sees it. The worker sends no token. -/
def received (request : FetchRequest) (path : String) : Request where
  method := request.method
  path := path
  authorization := ""
  token := ""
  body := request.body

section
variable {cfg : ApiConfig} {s : Server} {order : List PeerID} {now : Time}

/-- A request that is for a room reaches the handler with a path that resolves to it. -/
theorem serveMux_of_addressed {request : FetchRequest} {room : RoomName} {word : String}
    (h : addressed request = some (room, word)) : ∃ path,
      serveMux (UrlPath.pathname request.url.toList) = .handled .roomSub path ∧
        resolveRoomSub path = some (room, word) := by
  unfold addressed at h
  split at h
  · next path hserved => exact ⟨path, hserved, h⟩
  · cases h

/-- **The gateway cleans up the room that the worker means.** -/
theorem cleanup_reaches_room (hauth : cfg.authToken = "")
    (haddressed : addressed (roomRequest gatewayURL name .cleanup) = some (name, "cleanup")) :
    ∃ path, serveMux (UrlPath.pathname (roomRequest gatewayURL name .cleanup).url.toList) =
        .handled .roomSub path ∧
      handleRoomSub goRt cfg s (received (roomRequest gatewayURL name .cleanup) path) order now =
        ((cleanupRoom s name "__cleanup__" order now).1,
          (cleanupRoom s name "__cleanup__" order now).2, ok) := by
  obtain ⟨path, hserved, hresolved⟩ := serveMux_of_addressed haddressed
  have hhandled : handleRoomSub goRt cfg s (received (roomRequest gatewayURL name .cleanup) path)
      order now = roomAction goRt cfg s name "cleanup"
        (received (roomRequest gatewayURL name .cleanup) path) order now :=
    handleRoomSub_of_resolved (checkAuth_of_none hauth) hresolved
  exact ⟨path, hserved, hhandled.trans (roomAction_cleanup (by rfl))⟩

/-- A request that is for no room is refused, and changes nothing. -/
theorem refused_of_unaddressed {request : FetchRequest} {path : String}
    (hauth : cfg.authToken = "") (h : addressed request = none)
    (hserved : serveMux (UrlPath.pathname request.url.toList) = .handled .roomSub path) :
    (handleRoomSub goRt cfg s (received request path) order now).1 = s ∧
      (handleRoomSub goRt cfg s (received request path) order now).2.2 ≠ ok := by
  have hresolved : resolveRoomSub path = none := by
    rwa [addressed, hserved] at h
  have hauth' : checkAuth cfg.authToken (received request path) = true := checkAuth_of_none hauth
  obtain h404 | h400 : handleRoomSub goRt cfg s (received request path) order now = _ ∨ _ :=
    handleRoomSub_of_unresolved hauth' hresolved
  · rw [h404]
    exact ⟨rfl, show Response.mk 404 "not found" ≠ ok by decide⟩
  · rw [h400]
    exact ⟨rfl, show Response.mk 400 "invalid room name encoding" ≠ ok by decide⟩

/-- A room that its URLs do not lead to is left as it is by every job, if the gateway answers
such a request with an error. -/
theorem isCleaned_of_unaddressed {env : Worker.CleanupRuntime}
    (herror : ∀ request, addressed request = none →
      ∃ res, env.fetch request = .ok res ∧ res.ok = false)
    (h : addressed (roomRequest gatewayURL name .info) = none) :
    Worker.isCleaned env gatewayURL name = false := by
  obtain ⟨res, hfetch, hres⟩ := herror _ h
  exact Worker.isCleaned_of_refused hfetch hres

end

end TrapChat.Network
