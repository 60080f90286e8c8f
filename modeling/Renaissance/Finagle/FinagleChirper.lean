import Renaissance.Lib.JavaInt
import Renaissance.Lib.JavaStreams

/-!
# Posting in the chirper

`FinagleChirper`: the `Master` that keeps the feeds, and the requests of a `Client`. What is used of
Finagle is a parameter. Messages and names are arrays of UTF-16 code units.

`arrives_iff` says which posts arrive: the client sends the message as a parameter, and the master takes
it from the body of the request.
-/

namespace Renaissance.Chirper

open JavaCollections JavaInt JavaStreams

/-- `scala.util.hashing.byteswap32`. -/
def byteswap32 (v : ℤ) : ℤ :=
  let hc := BitVec.ofInt 32 (v * 0x9e3775cd)
  let reversed := hc.extractLsb' 0 8 ++ hc.extractLsb' 8 8 ++ hc.extractLsb' 16 8 ++ hc.extractLsb' 24 8
  int (reversed.toInt * 0x9e3775cd)

/-- `math.abs`, which leaves the smallest number as it is. -/
def mathAbs (x : ℤ) : ℤ :=
  int |x|

inductive Failure
  | matchError
  | noSuchElement
  | indexOutOfBounds
  | arithmeticException
  deriving DecidableEq, Repr

/-- `x % y`. -/
def remainder (x y : ℤ) : Except Failure ℤ :=
  if y = 0 then .error .arithmeticException else .ok (x.tmod y)

/-- `xs(index)`. -/
def elementAt {α : Type} (xs : List α) (index : ℤ) : Except Failure α :=
  if 0 ≤ index then
    match xs[index.toNat]? with
    | some x => .ok x
    | none => .error .indexOutOfBounds
  else .error .indexOutOfBounds

/-- `xs.slice(start, stop)`. -/
def slice {α : Type} (xs : List α) (start stop : ℤ) : List α :=
  (xs.drop start.toNat).take (stop.toNat - start.toNat)

inductive Method
  | get
  | post
  deriving DecidableEq, Repr

/-- What is used of Finagle and of `URLEncoder`. `getParam` stands for requests that have the parameter: for
others the real one returns `null`. -/
structure Finagle (ρ : Type) where
  request : Method → Text → ρ
  path : ρ → Text
  getParam : ρ → Text → Text
  content : ρ → List UInt8
  utf16 : List UInt8 → Text
  urlEncode : Text → Text

/-- The settings of the benchmark. -/
structure Settings where
  userNames : List Text
  messages : List Text
  cacheCount : ℤ

/-- The content of a response with the status `Ok`. A text is encoded as UTF-8, a number in eight
bytes. -/
inductive Content
  | bytes (bytes : List UInt8)
  | utf8 (message : Text)
  | long (count : ℤ)
  deriving DecidableEq, Repr

/-! ## The master -/

structure Master where
  feeds : List (Text × List Text)
  requestCount : ℤ
  postCount : ℤ

/-- The messages of a feed one after the other in an `Accumulator`. -/
def analyze {α : Type} (feed : List Text) (zero : α) (f : Text → α) (op : α → α → α) : α :=
  feed.foldl (fun value msg => op value (f msg)) zero

def longer (x y : Text) : Text :=
  if x.length > y.length then x else y

/-- The longest of what is found in the feeds, where the first one counts. -/
def longestInAllFeeds (find : List Text → Text) (allFeeds : List (List Text)) : Text :=
  allFeeds.foldl (fun result feed => longer (find feed) result) []

def longestMessageInFeed (feed : List Text) : Text :=
  analyze feed [] id longer

def longestMessageInAllFeeds (allFeeds : List (List Text)) : Text :=
  longestInAllFeeds longestMessageInFeed allFeeds

def hashStartCountInAllFeeds (allFeeds : List (List Text)) : ℤ :=
  allFeeds.foldl (fun result feed => long (result +
    analyze feed 0 (fun s => if s.head? = (text "#").head? then 1 else 0) fun x y => long (x + y))) 0

/-- The message starts with `RT`. -/
def isRechirp (s : Text) : Bool :=
  text "RT" <+: s

def longestRechirpInAllFeeds (allFeeds : List (List Text)) : Text :=
  longestInAllFeeds (fun feed => analyze feed [] (fun s => if isRechirp s then s else []) longer) allFeeds

/-- The users without rechirps are not in the multiset. -/
def mostRechirpsInAllFeeds (allFeeds : List (Text × List Text)) : Except Failure ℤ :=
  let counts := (allFeeds.map fun feed => feed.2.countP isRechirp).filter (0 < ·)
  match reduce max counts with
  | some most => .ok most
  | none => .error .noSuchElement

namespace Master

/-- The messages with line ends. The array has one byte more. -/
def feedBytes (feed : List Text) : List UInt8 :=
  (feed.flatMap fun msg => msg.map UInt16.toUInt8 ++ [10]) ++ [0]

def feed (master : Master) (username : Text) : Master × Except Failure Content :=
  match mapGet master.feeds username with
  | some feed => (master, .ok (.bytes (feedBytes feed)))
  | none => ({ master with feeds := update master.feeds (username, []) }, .ok (.bytes []))

/-- The parameter `ord` is read and not used. -/
def post (master : Master) (username content : Text) : Master × Except Failure Content :=
  let master := { master with postCount := int (master.postCount + 1) }
  let master := { master with feeds := putIfAbsent master.feeds (username, []) }
  match mapGet master.feeds username with
  | some feed =>
      ({ master with feeds := update master.feeds (username, feed ++ [content]) },
        .ok (.bytes [111, 107]))
  | none => (master, .error .noSuchElement)

/-- The feed with which a user starts. -/
def startingMessages (settings : Settings) (username : Text) : Except Failure (List Text) := do
  let startingFeedSize := 80
  let first ← elementAt username 0
  let hash := byteswap32 (int (username.length + first.toNat))
  let offset ← remainder (mathAbs hash) (settings.messages.length - startingFeedSize)
  pure (slice settings.messages offset (offset + startingFeedSize))

/-- The loop over the user names. -/
def startFeeds (settings : Settings) (feeds : List (Text × List Text)) :
    List Text → List (Text × List Text) × Except Failure Content
  | [] => (feeds, .ok (.bytes []))
  | username :: userNames =>
      match startingMessages settings username with
      | .ok messages => startFeeds settings (update feeds (username, messages)) userNames
      | .error failure => (feeds, .error failure)

def reset (settings : Settings) (master : Master) : Master × Except Failure Content :=
  let (feeds, response) := startFeeds settings [] settings.userNames
  ({ master with feeds := feeds }, response)

section Apply

variable {ρ : Type} (finagle : Finagle ρ) (settings : Settings)
  (order : IterationOrder (Text × List Text))

def apply (master : Master) (req : ρ) : Master × Except Failure Content :=
  let master := { master with requestCount := int (master.requestCount + 1) }
  let snapshot := order.arrange master.feeds
  let allFeeds := snapshot.map Prod.snd
  let path := finagle.path req
  if path = text "/api/feed" then master.feed (finagle.getParam req (text "username"))
  else if path = text "/api/post" then
    master.post (finagle.getParam req (text "username")) (finagle.utf16 (finagle.content req))
  else if path = text "/api/stats/longest" then
    (master, .ok (.utf8 (longestMessageInAllFeeds allFeeds)))
  else if path = text "/api/stats/hash-tag-count" then
    (master, .ok (.long (hashStartCountInAllFeeds allFeeds)))
  else if path = text "/api/stats/longest-rechirp" then
    (master, .ok (.utf8 (longestRechirpInAllFeeds allFeeds)))
  else if path = text "/api/stats/most-rechirps" then
    (master, (mostRechirpsInAllFeeds snapshot).map .long)
  else if path = text "/api/reset" then master.reset settings
  else (master, .error .matchError)

end Apply

end Master

/-! ## The client -/

structure Client where
  username : Text
  postCount : ℤ

/-- What a client sends in one iteration of its loop. -/
inductive Sent (ρ : Type)
  | post (message : Text) (request : ρ)
  | statistics (request : ρ)
  | fetch (cache : ℤ) (requests : List ρ)

namespace Client

variable {ρ : Type} (finagle : Finagle ρ) (settings : Settings)

def statMultiplicities : List Text :=
  List.replicate 20 (text "/api/stats/longest") ++
    List.replicate 20 (text "/api/stats/hash-tag-count") ++
    List.replicate 20 (text "/api/stats/longest-rechirp") ++
    List.replicate 50 (text "/api/stats/most-rechirps")

def postQuery (username message : Text) (postCount : ℤ) : Text :=
  text "/api/post?username=" ++ username ++ text "&message=" ++ finagle.urlEncode message ++
    text "&ord=" ++ text (toString postCount)

def postRequest (username message : Text) (postCount : ℤ) : ρ :=
  finagle.request .get (postQuery finagle username message postCount)

/-- One iteration of the loop of `run`. -/
def send (client : Client) (i : ℤ) : Except Failure (Client × Sent ρ) := do
  let postPeriodicity := 57
  let statisticsPeriodicity := 19
  let batchSize := 4
  let last ← elementAt client.username (client.username.length - 1)
  let offset := byteswap32 last.toNat
  let uid := mathAbs (byteswap32 (int (offset * i)))
  if uid.tmod postPeriodicity = 0 then
    let client := { client with postCount := int (client.postCount + 1) }
    let message ← elementAt settings.messages (← remainder uid settings.messages.length)
    pure (client, .post message (postRequest finagle client.username message client.postCount))
  else if uid.tmod statisticsPeriodicity = 0 then
    let query ← elementAt statMultiplicities (uid.tmod statMultiplicities.length)
    pure (client, .statistics (finagle.request .get query))
  else
    let feedQuery := text "/api/feed?username=" ++ client.username
    let cache ← remainder uid settings.cacheCount
    pure (client, .fetch cache (List.replicate batchSize (finagle.request .get feedQuery)))

end Client

/-! ## Posts that arrive -/

/-- A request made from a method and a URI has an empty body. -/
structure Documented {ρ : Type} (finagle : Finagle ρ) : Prop where
  path_of : ∀ method (route query : Text), (text "?").headD 0 ∉ route →
    finagle.path (finagle.request method (route ++ text "?" ++ query)) = route
  emptyBody : ∀ method uri, finagle.content (finagle.request method uri) = []
  utf16_empty : finagle.utf16 [] = []

/-- The user's feed is longer by exactly the message, and the other feeds are what they were. -/
structure Extends (before after : Master) (username message : Text) : Prop where
  posted : mapGet after.feeds username = some ((mapGet before.feeds username).getD [] ++ [message])
  others : ∀ other, other ≠ username → mapGet after.feeds other = mapGet before.feeds other

/-- The post of a client extends the feed by its message. -/
def Arrives {ρ : Type} (finagle : Finagle ρ) (settings : Settings)
    (order : IterationOrder (Text × List Text)) (master : Master) (username message : Text)
    (postCount : ℤ) : Prop :=
  Extends master (master.apply finagle settings order
    (Client.postRequest finagle username message postCount)).1 username message

/-- A post makes the feed of its user longer and leaves the others. -/
theorem post_extends (master : Master) (username content : Text) :
    Extends master (master.post username content).1 username content := by
  have there := mapGet_putIfAbsent master.feeds (username, []) username
  rw [if_pos rfl] at there
  unfold Master.post
  dsimp only
  rw [there]
  constructor
  · rw [mapGet_update, if_pos rfl]
  · intro other different
    rw [mapGet_update, if_neg different, mapGet_putIfAbsent, if_neg different]

section Finagle

variable {ρ : Type} {finagle : Finagle ρ} {username message : Text} {postCount : ℤ}

theorem path_postRequest (documented : Documented finagle) :
    finagle.path (Client.postRequest finagle username message postCount) = text "/api/post" := by
  have start : text "/api/post?username=" = text "/api/post" ++ text "?" ++ text "username=" := by
    decide
  have query : Client.postQuery finagle username message postCount =
      text "/api/post" ++ text "?" ++ (text "username=" ++ username ++ text "&message=" ++
        finagle.urlEncode message ++ text "&ord=" ++ text (toString postCount)) := by
    simp only [Client.postQuery, start, List.append_assoc]
  rw [Client.postRequest, query]
  exact documented.path_of .get _ _ (by decide)

/-- The master posts the empty body under the name that it reads in the request. -/
theorem apply_postRequest (documented : Documented finagle) (settings : Settings)
    (order : IterationOrder (Text × List Text)) (master : Master) (username message : Text)
    (postCount : ℤ) :
    Extends master (master.apply finagle settings order
        (Client.postRequest finagle username message postCount)).1
      (finagle.getParam (Client.postRequest finagle username message postCount) (text "username"))
      [] := by
  have content : finagle.utf16 (finagle.content
      (Client.postRequest finagle username message postCount)) = [] := by
    rw [Client.postRequest, documented.emptyBody, documented.utf16_empty]
  have route : text "/api/post" ≠ text "/api/feed" := by decide
  unfold Master.apply
  dsimp only
  rw [path_postRequest documented, content, if_neg route, if_pos rfl]
  obtain ⟨posted, others⟩ := post_extends
    { master with requestCount := int (master.requestCount + 1) }
    (finagle.getParam (Client.postRequest finagle username message postCount) (text "username")) []
  exact ⟨posted, others⟩

/-- A post arrives if and only if the message is empty and the user's name, which is not encoded, can be
read back from the request. -/
theorem arrives_iff (documented : Documented finagle) (settings : Settings)
    (order : IterationOrder (Text × List Text)) (master : Master) (username message : Text)
    (postCount : ℤ) :
    Arrives finagle settings order master username message postCount ↔
      message = [] ∧ finagle.getParam (Client.postRequest finagle username message postCount)
        (text "username") = username := by
  have extends' := apply_postRequest documented settings order master username message postCount
  constructor
  · intro arrives
    by_cases same : username = finagle.getParam
        (Client.postRequest finagle username message postCount) (text "username")
    · refine ⟨?_, same.symm⟩
      have posted := arrives.posted
      have empty := extends'.posted
      rw [← same, posted, Option.some.injEq, List.append_cancel_left_eq] at empty
      exact List.head_eq_of_cons_eq empty
    · -- the feed of another user was extended
      have posted := arrives.posted
      rw [extends'.others username same] at posted
      have grown := congrArg (fun feed => (Option.getD feed []).length) posted
      simp at grown
  · rintro ⟨rfl, same⟩
    rw [same] at extends'
    exact extends'

end Finagle

/-! ## Requests of plain texts -/

/-- Requests that keep their URI, with parameters that are not encoded: enough for names and messages
of letters and digits. -/
def plain : Finagle (Method × Text) where
  request method uri := (method, uri)
  path request := request.2.takeWhile (· ≠ 63)
  getParam request name :=
    let params := ((request.2.dropWhile (· ≠ 63)).drop 1).splitOn 38
    ((params.find? (name ++ [61] <+: ·)).getD []).drop (name.length + 1)
  content _ := []
  utf16 bytes := (bytes.toChunks 2).map fun pair =>
    (pair.headD 0).toUInt16 * 256 + (pair.getD 1 0).toUInt16
  urlEncode message := message

theorem plain_documented : Documented plain where
  path_of method route query absent := by
    have kept : ∀ c ∈ route, (c ≠ 63 : Bool) = true := by
      intro c mem
      rw [decide_eq_true_iff]
      rintro rfl
      exact absent mem
    show (route ++ text "?" ++ query).takeWhile (· ≠ 63) = route
    rw [List.append_assoc, List.takeWhile_append_of_pos kept]
    exact List.append_nil route
  emptyBody _ _ := rfl
  utf16_empty := rfl

def settings : Settings where
  userNames := [text "johnny0"]
  messages := [text "hello"]
  cacheCount := 1

def master : Master where
  feeds := [(text "johnny0", [text "first"])]
  requestCount := 0
  postCount := 0

theorem arrives_iff_johnny :
    Arrives plain settings (.insertion _) master (text "johnny0") (text "hello") 1 ↔
      text "hello" = [] ∧
        plain.getParam (Client.postRequest plain (text "johnny0") (text "hello") 1)
          (text "username") = text "johnny0" :=
  arrives_iff plain_documented settings (.insertion _) master (text "johnny0") (text "hello") 1

/-- The feed gets an empty message. -/
theorem hello_does_not_arrive :
    ¬Arrives plain settings (.insertion _) master (text "johnny0") (text "hello") 1 := by
  intro arrives
  exact absurd arrives.posted (by decide +kernel)

end Renaissance.Chirper
