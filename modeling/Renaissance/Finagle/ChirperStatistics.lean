import Renaissance.Finagle.FinagleChirper
import Renaissance.Lib.Transition

/-!
# Statistics of the chirper

The answers to the four statistics requests, in every state of the `Master` that requests lead to. The
users with rechirps are counted in parallel.

* `parallelMost_iff`: the parallel loop and the parallel maximum come to what `mostRechirpsInAllFeeds` is;
* `statistics_right_iff`: which requests are answered with the value that they are about. Where there is
  no rechirp there is no maximum either.
-/

namespace Renaissance.Chirper

open JavaCollections JavaInt JavaStreams

/-- The users that the parallel loop adds to the multiset. -/
def rechirpers (allFeeds : List (Text × List Text)) : List Text :=
  allFeeds.flatMap fun (username, feed) => (feed.filter isRechirp).map fun _ => username

/-- What `mostRechirpsInAllFeeds` may come to: the users are added in any order, and the entries of the
multiset are a parallel stream in any order. -/
def ParallelMost (allFeeds : List (Text × List Text)) (outcome : Except Failure ℤ) : Prop :=
  ∃ (added users : List Text) (most : Option ℤ), added.Perm (rechirpers allFeeds) ∧
    users.Perm added.dedup ∧ Reduces max (users.map fun user => (added.count user : ℤ)) most ∧
      outcome = match most with
        | some most => .ok most
        | none => .error .noSuchElement

/-! ## What the requests are about -/

def Master.messages (master : Master) : List Text :=
  master.feeds.flatMap Prod.snd

def startsWithHash (message : Text) : Bool :=
  message.head? = (text "#").head?

/-- One of the messages of maximal length, and the empty string if there are none. -/
def Longest (among : Text → Prop) (result : Text) : Prop :=
  (among result ∧ ∀ message, among message → message.length ≤ result.length) ∨
    result = [] ∧ ∀ message, ¬among message

/-- The maximum, and 0 if there are no numbers. -/
def Most (counts : List ℕ) (result : ℕ) : Prop :=
  (∀ count ∈ counts, count ≤ result) ∧ (result ∈ counts ∨ result = 0 ∧ counts = [])

/-- The answer is the value that the request is about. -/
structure Right (master : Master) (path : Text) (response : Except Failure Content) : Prop where
  longest : path = text "/api/stats/longest" →
    ∃ message, response = .ok (.utf8 message) ∧ Longest (· ∈ master.messages) message
  hashTagCount : path = text "/api/stats/hash-tag-count" →
    response = .ok (.long (master.messages.countP startsWithHash))
  longestRechirp : path = text "/api/stats/longest-rechirp" →
    ∃ message, response = .ok (.utf8 message) ∧
      Longest (fun message => message ∈ master.messages ∧ isRechirp message) message
  mostRechirps : path = text "/api/stats/most-rechirps" →
    ∃ most : ℕ, response = .ok (.long most) ∧
      Most (master.feeds.map fun feed => feed.2.countP isRechirp) most

section Requests

variable {ρ : Type} (finagle : Finagle ρ) (settings : Settings)

/-- A new `Master`. -/
def Master.new : Master where
  feeds := []
  requestCount := 0
  postCount := 0

/-- A request, with the order in which the feeds come out. -/
def Master.step (request : IterationOrder (Text × List Text) × ρ) (master : Master) : Option Master :=
  some (master.apply finagle settings request.1 request.2).1

/-- How a request may be answered. -/
def Answers (order : IterationOrder (Text × List Text)) (master : Master) (req : ρ)
    (response : Except Failure Content) : Prop :=
  if finagle.path req = text "/api/stats/most-rechirps" then
    ∃ outcome, ParallelMost (order.arrange master.feeds) outcome ∧ response = outcome.map .long
  else response = (master.apply finagle settings order req).2

/-- The request is answered, and every answer that it may get is right. -/
def AnsweredRight (master : Master) (req : ρ) : Prop :=
  ∀ order, (∃ response, Answers finagle settings order master req response) ∧
    ∀ response, Answers finagle settings order master req response →
      Right master (finagle.path req) response

end Requests

/-! ## One feed for each user -/

section Keyed

variable {ρ : Type} {finagle : Finagle ρ} {settings : Settings} {master : Master}

theorem keyed_putIfAbsent {feeds : List (Text × List Text)} (keyed : Keyed feeds)
    (entry : Text × List Text) : Keyed (putIfAbsent feeds entry) := by
  unfold putIfAbsent
  split
  · exact keyed
  · exact keyed.update entry

theorem keyed_feed (keyed : Keyed master.feeds) (username : Text) :
    Keyed (master.feed username).1.feeds := by
  unfold Master.feed
  split
  · exact keyed
  · exact keyed.update _

theorem keyed_post (keyed : Keyed master.feeds) (username content : Text) :
    Keyed (master.post username content).1.feeds := by
  have there : Keyed (putIfAbsent master.feeds (username, [])) := keyed_putIfAbsent keyed _
  unfold Master.post
  dsimp only
  split
  · exact there.update _
  · exact there

theorem keyed_startFeeds {userNames : List Text} {feeds : List (Text × List Text)}
    (keyed : Keyed feeds) : Keyed (Master.startFeeds settings feeds userNames).1 := by
  induction userNames generalizing feeds with
  | nil => exact keyed
  | cons username userNames ih =>
      rw [Master.startFeeds]
      split
      · exact ih (keyed.update _)
      · exact keyed

/-- Whatever is requested, there is one feed for each user. -/
theorem keyed_apply (keyed : Keyed master.feeds) (order : IterationOrder (Text × List Text)) (req : ρ) :
    Keyed (master.apply finagle settings order req).1.feeds := by
  have counted : Keyed ({ master with requestCount := int (master.requestCount + 1) } : Master).feeds :=
    keyed
  unfold Master.apply
  dsimp only
  split_ifs
  · exact keyed_feed counted _
  · exact keyed_post counted _ _
  · exact keyed
  · exact keyed
  · exact keyed
  · exact keyed
  · exact keyed_startFeeds .nil
  · exact keyed

theorem keyed_feeds (reachable : Transition.Reachable (Master.step finagle settings) Master.new master) :
    Keyed master.feeds := by
  refine reachable.invariant (I := fun master => Keyed master.feeds) .nil
    fun request master master' keyed moves => ?_
  cases moves
  exact keyed_apply keyed request.1 request.2

end Keyed

/-! ## The longest message -/

section Longest

variable {op : Text → Text → Text} {f : Text → Text} {message zero : Text}

/-- The operation gives one of two texts, and not the shorter one. -/
structure Picks (op : Text → Text → Text) : Prop where
  picked : ∀ x y, op x y = x ∨ op x y = y
  left : ∀ x y, x.length ≤ (op x y).length
  right : ∀ x y, y.length ≤ (op x y).length

theorem picks_longer : Picks longer where
  picked x y := by
    unfold longer
    split
    · exact .inl rfl
    · exact .inr rfl
  left x y := by
    unfold longer
    split <;> omega
  right x y := by
    unfold longer
    split <;> omega

theorem Picks.flip (picks : Picks op) : Picks (Function.swap op) where
  picked x y := (picks.picked y x).symm
  left x y := picks.right y x
  right x y := picks.left y x

/-- What is picked from a list is one of its texts or the one at the start, and as long as any of them. -/
theorem Picks.foldl {α : Type} (picks : Picks op) (f : α → Text) (xs : List α) (zero : Text) :
    (xs.foldl (fun value x => op value (f x)) zero = zero ∨
        ∃ x ∈ xs, xs.foldl (fun value x => op value (f x)) zero = f x) ∧
      zero.length ≤ (xs.foldl (fun value x => op value (f x)) zero).length ∧
      ∀ x ∈ xs, (f x).length ≤ (xs.foldl (fun value x => op value (f x)) zero).length := by
  induction xs generalizing zero with
  | nil => exact ⟨.inl rfl, le_rfl, fun x mem => by cases mem⟩
  | cons x xs ih =>
      obtain ⟨picked, start, rest⟩ := ih (op zero (f x))
      rw [List.foldl_cons]
      refine ⟨?_, (picks.left zero (f x)).trans start, fun y mem => ?_⟩
      · rcases picked with first | ⟨y, mem, same⟩
        · rcases picks.picked zero (f x) with isZero | isFirst
          · exact .inl (first.trans isZero)
          · exact .inr ⟨x, List.mem_cons_self, first.trans isFirst⟩
        · exact .inr ⟨y, List.mem_cons_of_mem x mem, same⟩
      · rcases List.mem_cons.mp mem with rfl | later
        · exact (picks.right zero (f y)).trans start
        · exact rest y later

/-- The longest in all feeds, where `f` is what is taken of a message. -/
theorem longestInAllFeeds_spec (f : Text → Text) (allFeeds : List (List Text)) :
    (longestInAllFeeds (fun feed => analyze feed [] f longer) allFeeds = [] ∨
        ∃ message ∈ allFeeds.flatten,
          longestInAllFeeds (fun feed => analyze feed [] f longer) allFeeds = f message) ∧
      ∀ message ∈ allFeeds.flatten, (f message).length ≤
        (longestInAllFeeds (fun feed => analyze feed [] f longer) allFeeds).length := by
  obtain ⟨picked, -, upper⟩ :=
    picks_longer.flip.foldl (fun feed => analyze feed [] f longer) allFeeds []
  constructor
  · rcases picked with isEmpty | ⟨feed, mem, isFound⟩
    · exact .inl isEmpty
    · rcases (picks_longer.foldl f feed []).1 with nothing | ⟨message, mem', same⟩
      · exact .inl (isFound.trans nothing)
      · exact .inr ⟨message, List.mem_flatten_of_mem mem mem', isFound.trans same⟩
  · intro message mem
    obtain ⟨feed, mem, mem'⟩ := List.mem_flatten.mp mem
    exact ((picks_longer.foldl f feed []).2.2 message mem').trans (upper feed mem)

theorem longest_of_upper {among : Text → Prop} (picked : message = [] ∨ among message)
    (upper : ∀ other, among other → other.length ≤ message.length) : Longest among message := by
  rcases picked with rfl | isOne
  · by_cases exists' : ∃ other, among other
    · obtain ⟨other, isOne⟩ := exists'
      obtain rfl : other = [] := List.length_eq_zero_iff.mp (Nat.le_zero.mp (upper other isOne))
      exact .inl ⟨isOne, upper⟩
    · exact .inr ⟨rfl, not_exists.mp exists'⟩
  · exact .inl ⟨isOne, upper⟩

end Longest

/-! ## Counting -/

theorem foldl_long {α : Type} (g : α → ℤ) (xs : List α) (n : ℤ) :
    xs.foldl (fun value x => long (value + g x)) (long n) = long (n + (xs.map g).sum) := by
  induction xs generalizing n with
  | nil => rw [List.foldl_nil, List.map_nil, List.sum_nil, add_zero]
  | cons x xs ih =>
      rw [List.foldl_cons, long, wrap_wrap_add, ih, List.map_cons, List.sum_cons, add_assoc]

theorem analyze_startsWithHash (feed : List Text) :
    analyze feed 0 (fun s => if s.head? = (text "#").head? then 1 else 0) (fun x y => long (x + y)) =
      long (feed.countP startsWithHash) := by
  have zero : (0 : ℤ) = long 0 := rfl
  have ones : (feed.map fun s : Text => if s.head? = (text "#").head? then (1 : ℤ) else 0).sum =
      feed.countP startsWithHash := by
    induction feed with
    | nil => rfl
    | cons s feed ih =>
        rw [List.map_cons, List.sum_cons, ih, List.countP_cons]
        by_cases hash : s.head? = (text "#").head?
        · simp [startsWithHash, hash, add_comm]
        · simp [startsWithHash, hash]
  rw [analyze, zero, foldl_long, ← zero, zero_add, ones]

/-- The count is the one of a machine integer. -/
theorem hashStartCount_eq (allFeeds : List (List Text)) :
    hashStartCountInAllFeeds allFeeds = long (allFeeds.flatten.countP startsWithHash) := by
  have start : (0 : ℤ) = long 0 := rfl
  have counts : (fun (result : ℤ) (feed : List Text) => long (result +
      analyze feed 0 (fun s => if s.head? = (text "#").head? then 1 else 0) fun x y => long (x + y))) =
      fun result feed => long (result + (feed.countP startsWithHash : ℤ)) := by
    funext result feed
    rw [analyze_startsWithHash, long, wrap_add_wrap]
  rw [hashStartCountInAllFeeds, counts, start, foldl_long, zero_add, List.countP_flatten,
    Nat.cast_list_sum, List.map_map]
  rfl

theorem long_natCast_iff (n : ℕ) : long n = n ↔ n < 2 ^ 63 := by
  constructor
  · intro same
    have small : (n : ℤ).bmod (2 ^ 64) < (2 ^ 64 + 1) / 2 := Int.bmod_lt (by decide)
    rw [long, wrap] at same
    omega
  · intro small
    exact long_eq_self (by omega) (by omega)

/-! ## The users with most rechirps -/

section Rechirps

variable {allFeeds : List (Text × List Text)}

theorem count_rechirpers_of_notMem {username : Text} (absent : username ∉ allFeeds.map Prod.fst) :
    (rechirpers allFeeds).count username = 0 := by
  refine List.count_eq_zero.mpr fun mem => ?_
  obtain ⟨feed, mem, mem'⟩ := List.mem_flatMap.mp mem
  obtain ⟨-, -, same⟩ := List.mem_map.mp mem'
  exact absent (same ▸ List.mem_map_of_mem mem)

/-- A user is added once for each rechirp in the feed. -/
theorem count_rechirpers (keyed : Keyed allFeeds) {username : Text} {feed : List Text}
    (mem : (username, feed) ∈ allFeeds) :
    (rechirpers allFeeds).count username = feed.countP isRechirp := by
  induction allFeeds with
  | nil => cases mem
  | cons first allFeeds ih =>
      obtain ⟨new, keyed⟩ := List.nodup_cons.mp keyed
      have split : rechirpers (first :: allFeeds) =
          ((first.2.filter isRechirp).map fun _ => first.1) ++ rechirpers allFeeds := rfl
      rw [split, List.count_append]
      rcases List.mem_cons.mp mem with rfl | later
      · rw [count_rechirpers_of_notMem new, List.map_const', List.count_replicate_self, add_zero,
          List.countP_eq_length_filter]
      · have other : first.1 ≠ username := by
          rintro rfl
          exact new (List.mem_map.mpr ⟨_, later, rfl⟩)
        rw [List.map_const', List.count_replicate, beq_false_of_ne other, ih keyed later]
        simp

theorem mem_rechirpers {username : Text} : username ∈ rechirpers allFeeds ↔
    username ∈ (allFeeds.filter fun feed => 0 < (feed.2.countP isRechirp : ℤ)).map Prod.fst := by
  constructor
  · intro added
    obtain ⟨feed, mem, isAdded⟩ := List.mem_flatMap.mp added
    obtain ⟨message, found, rfl⟩ := List.mem_map.mp isAdded
    have rechirps : 0 < (feed.2.countP isRechirp : ℤ) :=
      Int.natCast_pos.mpr (List.countP_pos_iff.mpr ⟨message, List.mem_filter.mp found⟩)
    exact List.mem_map_of_mem (List.mem_filter.mpr ⟨mem, decide_eq_true rechirps⟩)
  · intro listed
    obtain ⟨feed, found, rfl⟩ := List.mem_map.mp listed
    obtain ⟨mem, rechirps⟩ := List.mem_filter.mp found
    obtain ⟨message, found⟩ := List.countP_pos_iff.mp (Int.natCast_pos.mp (of_decide_eq_true rechirps))
    exact List.mem_flatMap.mpr
      ⟨feed, mem, List.mem_map.mpr ⟨message, List.mem_filter.mpr found, rfl⟩⟩

/-- The counts in the multiset are those of the users with rechirps. -/
theorem counts_perm (keyed : Keyed allFeeds) {added users : List Text}
    (adds : added.Perm (rechirpers allFeeds)) (entries : users.Perm added.dedup) :
    (users.map fun user => (added.count user : ℤ)).Perm
      ((allFeeds.map fun feed => (feed.2.countP isRechirp : ℤ)).filter (0 < ·)) := by
  have same : added.dedup.Perm
      ((allFeeds.filter fun feed => 0 < (feed.2.countP isRechirp : ℤ)).map Prod.fst) := by
    refine (List.perm_ext_iff_of_nodup (List.nodup_dedup added)
      (List.Nodup.sublist (List.filter_sublist.map Prod.fst) keyed)).mpr fun username => ?_
    rw [List.mem_dedup, adds.mem_iff, mem_rechirpers]
  have counts := (entries.trans same).map fun user => (added.count user : ℤ)
  rw [List.map_map] at counts
  rw [List.filter_map]
  refine counts.trans (.of_eq (List.map_congr_left fun feed mem => ?_))
  exact congrArg Nat.cast
    ((adds.count_eq feed.1).trans (count_rechirpers keyed (List.mem_filter.mp mem).1))

/-- The parallel loop comes to one thing only, and it is what `mostRechirpsInAllFeeds` is. -/
theorem parallelMost_iff (keyed : Keyed allFeeds) {outcome : Except Failure ℤ} :
    ParallelMost allFeeds outcome ↔ outcome = mostRechirpsInAllFeeds allFeeds := by
  constructor
  · rintro ⟨added, users, most, adds, entries, reduces, rfl⟩
    rw [reduces.eq_reduce, reduce_perm (counts_perm keyed adds entries)]
    rfl
  · rintro rfl
    refine ⟨_, _, _, .refl _, .refl _, reduces_reduce _ _, ?_⟩
    rw [reduce_perm (counts_perm keyed (.refl _) (.refl _))]
    rfl

theorem Most.perm {counts counts' : List ℕ} {most : ℕ} (isMost : Most counts most)
    (perm : counts.Perm counts') : Most counts' most := by
  obtain ⟨upper, attained⟩ := isMost
  refine ⟨fun count mem => upper count (perm.mem_iff.mpr mem), attained.imp perm.mem_iff.mp ?_⟩
  rintro ⟨isZero, rfl⟩
  exact ⟨isZero, perm.nil_eq.symm⟩

/-- There is a maximum if and only if some message is a rechirp. -/
theorem mostRechirps_iff :
    (∃ most : ℕ, mostRechirpsInAllFeeds allFeeds = .ok most ∧
        Most (allFeeds.map fun feed => feed.2.countP isRechirp) most) ↔
      ∃ message ∈ allFeeds.flatMap Prod.snd, isRechirp message := by
  rw [mostRechirpsInAllFeeds, reduce_max]
  constructor
  · rintro ⟨most, isMost, -⟩
    by_contra none'
    have nothing : (allFeeds.map fun feed => (feed.2.countP isRechirp : ℤ)).filter (0 < ·) = [] := by
      rw [List.filter_eq_nil_iff]
      intro count isCount
      obtain ⟨feed, mem, rfl⟩ := List.mem_map.mp isCount
      rw [decide_eq_true_iff, Int.natCast_pos, List.countP_pos_iff]
      rintro ⟨message, mem', rechirp⟩
      exact none' ⟨message, List.mem_flatMap_of_mem mem mem', rechirp⟩
    rw [nothing] at isMost
    cases isMost
  · rintro ⟨message, mem, rechirp⟩
    obtain ⟨feed, mem, mem'⟩ := List.mem_flatMap.mp mem
    have positive : 0 < (feed.2.countP isRechirp : ℤ) :=
      Int.natCast_pos.mpr (List.countP_pos_iff.mpr ⟨message, mem', rechirp⟩)
    have listed : (feed.2.countP isRechirp : ℤ) ∈
        (allFeeds.map fun feed => (feed.2.countP isRechirp : ℤ)).filter (0 < ·) :=
      List.mem_filter.mpr ⟨List.mem_map_of_mem mem, decide_eq_true positive⟩
    cases isMax : ((allFeeds.map fun feed => (feed.2.countP isRechirp : ℤ)).filter (0 < ·)).max? with
    | none =>
        rw [List.max?_eq_none_iff.mp isMax] at listed
        cases listed
    | some most =>
        obtain ⟨attained, upper⟩ := List.max?_eq_some_iff.mp isMax
        obtain ⟨best, mem', rfl⟩ := List.mem_map.mp (List.mem_filter.mp attained).1
        refine ⟨_, rfl, fun count isCount => ?_, .inl (List.mem_map_of_mem mem')⟩
        obtain ⟨other, mem, rfl⟩ := List.mem_map.mp isCount
        by_cases some' : 0 < (other.2.countP isRechirp : ℤ)
        · exact Int.ofNat_le.mp (upper _
            (List.mem_filter.mpr ⟨List.mem_map_of_mem mem, decide_eq_true some'⟩))
        · omega

end Rechirps

/-! ## Which requests are answered right -/

section Answers

variable {ρ : Type} {finagle : Finagle ρ} {settings : Settings} {master : Master} {req : ρ}
  {order : IterationOrder (Text × List Text)} {response : Except Failure Content}

theorem apply_longest (path : finagle.path req = text "/api/stats/longest") :
    (master.apply finagle settings order req).2 =
      .ok (.utf8 (longestMessageInAllFeeds ((order.arrange master.feeds).map Prod.snd))) := by
  simp only [Master.apply, path]
  rfl

theorem apply_hashTagCount (path : finagle.path req = text "/api/stats/hash-tag-count") :
    (master.apply finagle settings order req).2 =
      .ok (.long (hashStartCountInAllFeeds ((order.arrange master.feeds).map Prod.snd))) := by
  simp only [Master.apply, path]
  rfl

theorem apply_longestRechirp (path : finagle.path req = text "/api/stats/longest-rechirp") :
    (master.apply finagle settings order req).2 =
      .ok (.utf8 (longestRechirpInAllFeeds ((order.arrange master.feeds).map Prod.snd))) := by
  simp only [Master.apply, path]
  rfl

theorem apply_mostRechirps (path : finagle.path req = text "/api/stats/most-rechirps") :
    (master.apply finagle settings order req).2 =
      (mostRechirpsInAllFeeds (order.arrange master.feeds)).map .long := by
  simp only [Master.apply, path]
  rfl

/-- The order in which the feeds come out only changes the places of the messages. -/
theorem messages_perm (order : IterationOrder (Text × List Text)) (master : Master) :
    ((order.arrange master.feeds).map Prod.snd).flatten.Perm master.messages :=
  ((order.perm master.feeds).map Prod.snd).flatten

/-- A master that requests lead to has one answer only, the one of `apply`. -/
theorem answers_iff (keyed : Keyed master.feeds) :
    Answers finagle settings order master req response ↔
      response = (master.apply finagle settings order req).2 := by
  unfold Answers
  split_ifs with path
  · rw [apply_mostRechirps path]
    constructor
    · rintro ⟨outcome, isOutcome, rfl⟩
      rw [(parallelMost_iff (keyed.perm (order.perm _).symm)).mp isOutcome]
    · rintro rfl
      exact ⟨_, (parallelMost_iff (keyed.perm (order.perm _).symm)).mpr rfl, rfl⟩
  · rfl

theorem answeredRight_iff (keyed : Keyed master.feeds) :
    AnsweredRight finagle settings master req ↔
      ∀ order, Right master (finagle.path req) (master.apply finagle settings order req).2 := by
  simp only [AnsweredRight, answers_iff keyed, exists_eq, true_and, forall_eq]

theorem longestMessage_right :
    Longest (· ∈ master.messages)
      (longestMessageInAllFeeds ((order.arrange master.feeds).map Prod.snd)) := by
  obtain ⟨picked, upper⟩ := longestInAllFeeds_spec id ((order.arrange master.feeds).map Prod.snd)
  refine longest_of_upper (picked.imp_right ?_) fun message posted => ?_
  · rintro ⟨message, mem, same⟩
    rw [← show longestMessageInAllFeeds _ = message from same] at mem
    exact (messages_perm order master).mem_iff.mp mem
  · exact upper message ((messages_perm order master).mem_iff.mpr posted)

theorem longestRechirp_right :
    Longest (fun message => message ∈ master.messages ∧ isRechirp message)
      (longestRechirpInAllFeeds ((order.arrange master.feeds).map Prod.snd)) := by
  obtain ⟨picked, upper⟩ := longestInAllFeeds_spec (fun s => if isRechirp s then s else [])
    ((order.arrange master.feeds).map Prod.snd)
  refine longest_of_upper ?_ fun message posted => ?_
  · rcases picked with isEmpty | ⟨message, mem, same⟩
    · exact .inl isEmpty
    · by_cases rechirp : isRechirp message
      · rw [if_pos rechirp] at same
        right
        rw [longestRechirpInAllFeeds, same]
        exact ⟨(messages_perm order master).mem_iff.mp mem, rechirp⟩
      · rw [if_neg rechirp] at same
        exact .inl same
  · have long := upper message ((messages_perm order master).mem_iff.mpr posted.1)
    rwa [if_pos posted.2] at long

/-- In every state that requests lead to, a request is answered, and with the value that it is about, if and
only if it does not ask for the most rechirps where there are none or for a count that is too large for a
machine integer. -/
theorem statistics_right_iff
    (reachable : Transition.Reachable (Master.step finagle settings) Master.new master) (req : ρ) :
    AnsweredRight finagle settings master req ↔
      (finagle.path req = text "/api/stats/hash-tag-count" →
        master.messages.countP startsWithHash < 2 ^ 63) ∧
      (finagle.path req = text "/api/stats/most-rechirps" →
        ∃ message ∈ master.messages, isRechirp message) := by
  rw [answeredRight_iff (keyed_feeds reachable)]
  constructor
  · intro right
    constructor
    · intro path
      have answer := (right (.insertion _)).hashTagCount path
      rw [apply_hashTagCount path, hashStartCount_eq,
        (messages_perm (.insertion _) master).countP_eq startsWithHash] at answer
      exact (long_natCast_iff _).mp (Content.long.inj (Except.ok.inj answer))
    · intro path
      obtain ⟨most, answer, isMost⟩ := (right (.insertion _)).mostRechirps path
      refine mostRechirps_iff.mp ⟨most, ?_, isMost⟩
      rw [apply_mostRechirps path] at answer
      cases most' : mostRechirpsInAllFeeds ((IterationOrder.insertion _).arrange master.feeds) with
      | error failure =>
          rw [most'] at answer
          cases answer
      | ok other =>
          rw [most'] at answer
          rw [← Content.long.inj (Except.ok.inj answer)]
          exact most'
  · rintro ⟨small, some'⟩ order
    refine { longest := fun path => ?_, hashTagCount := fun path => ?_,
             longestRechirp := fun path => ?_, mostRechirps := fun path => ?_ }
    · exact ⟨_, apply_longest path, longestMessage_right⟩
    · rw [apply_hashTagCount path, hashStartCount_eq,
        (messages_perm order master).countP_eq startsWithHash, (long_natCast_iff _).mpr (small path)]
    · exact ⟨_, apply_longestRechirp path, longestRechirp_right⟩
    · obtain ⟨message, mem, rechirp⟩ := some' path
      have perm := (order.perm master.feeds).map fun feed => feed.2.countP isRechirp
      have mem' := ((order.perm master.feeds).flatMap_right Prod.snd).mem_iff.mpr mem
      obtain ⟨most, answer, isMost⟩ := mostRechirps_iff.mpr ⟨message, mem', rechirp⟩
      refine ⟨most, ?_, isMost.perm perm⟩
      rw [apply_mostRechirps path, answer]
      rfl

end Answers

/-- After one request for a feed there is one feed, without messages. -/
def johnny : Master where
  feeds := [(text "johnny0", [])]
  requestCount := 1
  postCount := 0

def feedRequest : Method × Text :=
  (.get, text "/api/feed?username=johnny0")

def mostRequest : Method × Text :=
  (.get, text "/api/stats/most-rechirps")

theorem johnny_reachable : Transition.Reachable (Master.step plain settings) Master.new johnny :=
  ⟨[(.insertion _, feedRequest)], by rfl⟩

theorem statistics_right_iff_johnny :
    AnsweredRight plain settings johnny mostRequest ↔
      (plain.path mostRequest = text "/api/stats/hash-tag-count" →
        johnny.messages.countP startsWithHash < 2 ^ 63) ∧
      (plain.path mostRequest = text "/api/stats/most-rechirps" →
        ∃ message ∈ johnny.messages, isRechirp message) :=
  statistics_right_iff johnny_reachable mostRequest

/-- Nothing is chirped, and the request for the most rechirps fails. -/
theorem johnny_not_right :
    Transition.Reachable (Master.step plain settings) Master.new johnny ∧
      (johnny.apply plain settings (.insertion _) mostRequest).2 = .error .noSuchElement ∧
      ¬AnsweredRight plain settings johnny mostRequest := by
  refine ⟨johnny_reachable, rfl, fun right => ?_⟩
  have right := (answeredRight_iff (keyed_feeds johnny_reachable)).mp right (.insertion _)
  obtain ⟨most, answer, -⟩ := right.mostRechirps rfl
  cases answer

end Renaissance.Chirper
