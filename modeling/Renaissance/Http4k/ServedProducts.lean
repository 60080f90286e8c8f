import Mathlib.Data.Set.Insert
import Renaissance.Http4k.WorkloadServer

/-!
# Every product that is asked for is there

What a task knows is a set of ids that are in the map. `clientSpec` says of a request what it needs to
know and what it teaches, `serverSpec` does so for the operations of the map. The workloads meet the
first and the handlers provide it from the second. As nothing is ever removed from the map, a task
never forgets while others run.
-/

namespace Renaissance.Http4k.Server

open Program Transition

variable {known : Set String}

/-- The ids of a list of products. -/
def ids (products : List Product) : Set String :=
  {id | ∃ p ∈ products, p.id = id}

/-- The answer to a request for a product is the product. -/
def Answers (request : Request) (response : Response) : Prop :=
  ∀ id, request = .getProduct id →
    response.status = .OK ∧ ∃ product, response.body = .product product ∧ product.id = id

def clientSpec : Spec ClientOp ClientOp.Result (Set String) where
  pre op known := match op with
    | .request (.getProduct id) => id ∈ known
    | .fail => False
    | _ => True
  post op result _ := match op, result with
    | .request .getProducts, (response : Response) =>
        ∃ products, response.body = .products products
    | _, _ => True
  after op result known := match op, result with
    | .request .getProducts, (response : Response) =>
        match response.body with
        | .products products => known ∪ ids products
        | _ => known
    | .request (.postProduct product), _ => insert product.id known
    | _, _ => known

def serverSpec : Spec ServerOp ServerOp.Result (Set String) where
  pre op _ := match op with
    | .put id product => product.id = id
    | .answer request response => Answers request response
    | .invariantError _ | .fail => False
    | _ => True
  post op result known := match op, result with
    | .contains id, (found : Bool) => id ∈ known → found = true
    | .get id, (found : Option Product) =>
        (id ∈ known → found.isSome) ∧ ∀ product, found = some product → product.id = id
    | _, _ => True
  after op result known := match op, result with
    | .contains id, (found : Bool) => if found then insert id known else known
    | .put id _, _ => insert id known
    | .values, (products : List Product) => known ∪ ids products
    | _, _ => known

section Client

theorem meets_getProducts {Q : List Product → Set String → Prop}
    (holds : ∀ products, Q products (known ∪ ids products)) :
    Meets clientSpec Client.getProducts Q known := by
  unfold Client.getProducts
  refine meets_bind.mpr ⟨trivial, fun response possible => meets_bind.mpr ?_⟩
  obtain ⟨products, body⟩ := possible
  have learns : clientSpec.after (.request .getProducts) response known = known ∪ ids products := by
    simp only [clientSpec, body]
  have parsed : Client.productsLens response = pure products := by
    unfold Client.productsLens
    split
    next here =>
      rw [here] at body
      cases body
      rfl
    next other => exact absurd body (other products)
  rw [learns, parsed]
  exact meets_pure.mpr (meets_bind.mpr ⟨trivial, fun _ _ => holds products⟩)

theorem meets_getProduct {id : String} {Q : Response → Set String → Prop} (here : id ∈ known)
    (holds : ∀ response, Q response known) : Meets clientSpec (Client.getProduct id) Q known :=
  ⟨here, fun response _ => ⟨trivial, fun _ _ => holds response⟩⟩

theorem meets_postProduct {product : Product} {Q : Response → Set String → Prop}
    (holds : ∀ response, Q response (insert product.id known)) :
    Meets clientSpec (Client.postProduct product) Q known :=
  ⟨trivial, fun response _ => ⟨trivial, fun _ _ => holds response⟩⟩

theorem meets_generateProduct {Q : Product → Set String → Prop}
    (holds : ∀ product, Q product known) : Meets clientSpec Client.generateProduct Q known :=
  ⟨trivial, fun _ _ => holds _⟩

theorem meets_increment {counter : Counter} {Q : Unit → Set String → Prop} (holds : Q () known) :
    Meets clientSpec (Client.increment counter) Q known :=
  ⟨trivial, fun _ _ => holds⟩

/-- A workload only asks for products that it knows to be there. -/
theorem workload_meets (kind : WorkloadType) :
    Meets clientSpec kind.workload (fun _ _ => True) known := by
  cases kind with
  | read =>
      refine meets_bind.mpr (meets_getProducts fun products => meets_bind.mpr ?_)
      let I (rest : List Product) (known : Set String) : Prop := ∀ p ∈ rest, p.id ∈ known
      refine (meets_forEach (I := I) ?_ ?_).mono fun _ _ _ => meets_increment trivial
      · intro p rest known listed
        refine meets_bind.mpr (meets_getProduct (listed p List.mem_cons_self) fun _ => ?_)
        exact meets_pure.mpr fun q mem => listed q (List.mem_cons_of_mem _ mem)
      · exact fun p mem => .inr ⟨p, mem, rfl⟩
  | write =>
      refine meets_bind.mpr (meets_generateProduct fun product => meets_bind.mpr ?_)
      exact meets_postProduct fun _ => meets_increment trivial
  | ddos =>
      refine meets_bind.mpr ?_
      refine (meets_forEach (I := fun _ _ => True) ?_ trivial).mono fun _ _ _ =>
        meets_increment trivial
      intro k rest known _
      exact meets_bind.mpr (meets_getProducts fun _ => meets_pure.mpr trivial)
  | mixed =>
      refine meets_bind.mpr (meets_getProducts fun products => meets_bind.mpr ?_)
      refine meets_generateProduct fun product => meets_bind.mpr (meets_postProduct fun _ => ?_)
      exact meets_bind.mpr (meets_getProduct (.inl rfl) fun _ => meets_increment trivial)

end Client

section Handlers

theorem meets_contains {id : String} {Q : Bool → Set String → Prop}
    (holds : ∀ found, (id ∈ known → found = true) →
      Q found (if found then insert id known else known)) :
    Meets serverSpec (contains id) Q known :=
  ⟨trivial, fun found possible => holds found possible⟩

theorem meets_get {id : String} {Q : Option Product → Set String → Prop}
    (holds : ∀ found, (id ∈ known → found.isSome) →
      (∀ product, found = some product → product.id = id) → Q found known) :
    Meets serverSpec (get id) Q known :=
  ⟨trivial, fun found possible => holds found possible.1 possible.2⟩

/-- The membership check makes sure that the product can be fetched, and if it is known to be there the
check succeeds. -/
theorem getProduct_meets {id : String} (here : id ∈ known) :
    Meets serverSpec (getProduct (.getProduct id))
      (fun response known' => Answers (.getProduct id) response ∧ known ⊆ known') known := by
  unfold getProduct Request.path
  refine meets_bind.mpr (meets_contains fun found possible => ?_)
  rw [possible here]
  refine meets_bind.mpr (meets_get fun found present same => ?_)
  obtain ⟨product, rfl⟩ := Option.isSome_iff_exists.mp (present (.inl rfl))
  refine meets_pure.mpr ⟨fun id' asked => ?_, Set.subset_insert id known⟩
  cases asked
  exact ⟨rfl, product, rfl, same product rfl⟩

/-- The handlers provide what the client relies on. -/
theorem serve_meets (op : ClientOp) {known known' : Set String} (more : known ⊆ known')
    (pre : clientSpec.pre op known) :
    Meets serverSpec (serve op) (fun result known' =>
      clientSpec.post op result known ∧ clientSpec.after op result known ⊆ known') known' := by
  cases op with
  | request r =>
      refine meets_bind.mpr ?_
      cases r with
      | getProducts =>
          refine meets_bind.mpr ⟨trivial, fun products _ => meets_pure.mpr (meets_bind.mpr ?_)⟩
          refine ⟨nofun, fun _ _ => meets_pure.mpr ⟨⟨products, rfl⟩, ?_⟩⟩
          exact Set.union_subset_union_left _ more
      | getProduct id =>
          refine (getProduct_meets (more pre)).mono fun response known'' ⟨answers, kept⟩ => ?_
          exact meets_bind.mpr ⟨answers, fun _ _ => meets_pure.mpr ⟨trivial, more.trans kept⟩⟩
      | postProduct product =>
          refine meets_bind.mpr ⟨rfl, fun _ _ => meets_pure.mpr (meets_bind.mpr ?_)⟩
          exact ⟨nofun, fun _ _ => meets_pure.mpr ⟨trivial, Set.insert_subset_insert more⟩⟩
  | randomUUID => exact ⟨trivial, fun _ _ => ⟨trivial, more⟩⟩
  | increment counter => exact ⟨trivial, fun _ _ => ⟨trivial, more⟩⟩
  | fail => exact pre.elim

theorem served_meets (kind : WorkloadType) (known : Set String) :
    Meets serverSpec (interpret serve kind.workload) (fun _ _ => True) known :=
  (meets_interpret (R := fun known known' => known ⊆ known')
    (fun op _ _ more pre => serve_meets op more pre) (subset_refl known)
    (workload_meets kind)).mono fun _ _ _ => trivial

end Handlers

/-- The ids in the map. -/
def State.present (s : State) : Set String :=
  {id | (s.products id).isSome}

structure Sound (s : State) : Prop where
  stored : ∀ id product, s.products id = some product → product.id = id
  past : ∀ product ∈ s.past, product.id ∈ s.present
  tasks : ∀ t ∈ s.tasks, Meets serverSpec t (fun _ _ => True) s.present
  answers : ∀ answer ∈ s.answers, Answers answer.1 answer.2

theorem Sound.start : Sound {} :=
  ⟨fun _ _ => nofun, fun _ => nofun, fun _ => nofun, fun _ => nofun⟩

/-- What is known stays right when the map grows. -/
theorem meets_of_subset {t : Server Unit} {known' : Set String} (more : known ⊆ known')
    (meets : Meets serverSpec t (fun _ _ => True) known) :
    Meets serverSpec t (fun _ _ => True) known' := by
  refine Meets.weaken (fun _ pre => pre) (fun {op} {result} {known} {known'} more post => ?_)
    (fun {op} {result} {known} {known'} more => ?_) (fun _ _ => trivial) more meets
  · cases op with
    | contains id => exact fun here => post (more here)
    | get id => exact ⟨fun here => post.1 (more here), post.2⟩
    | _ => trivial
  · cases op with
    | contains id =>
        cases (result : Bool) with
        | true => exact Set.insert_subset_insert more
        | false => exact more
    | put id product => exact Set.insert_subset_insert more
    | values => exact Set.union_subset_union_left _ more
    | _ => exact more

variable {s s' : State} {op : ServerOp} {result : op.Result} {choice : Choice}

/-- The map behaves as the specification says. -/
theorem Sound.post (sound : Sound s) (answered : op.result choice s = some result) :
    serverSpec.post op result s.present := by
  cases op with
  | contains id =>
      cases answered
      exact fun here => here
  | get id =>
      cases answered
      exact ⟨fun here => here, sound.stored id⟩
  | _ => trivial

theorem present_put (id : String) (product : Product) (s : State) :
    ((ServerOp.put id product).effect s).present = insert id s.present := by
  ext id'
  by_cases same : id' = id
  · subst same
    simp [ServerOp.effect, State.present]
  · simp [ServerOp.effect, State.present, same]

/-- The map only grows. -/
theorem present_effect (op : ServerOp) (s : State) : s.present ⊆ (op.effect s).present := by
  cases op with
  | put id product =>
      rw [present_put]
      exact Set.subset_insert id s.present
  | _ => exact subset_refl s.present

/-- What a task learns from the result is in the map afterwards. -/
theorem Sound.learns (sound : Sound s) (answered : op.result choice s = some result) :
    serverSpec.after op result s.present ⊆ (op.effect s).present := by
  cases op with
  | contains id =>
      cases answered
      cases here : (s.products id).isSome with
      | true =>
          simp only [serverSpec, if_true]
          exact Set.insert_subset here (subset_refl s.present)
      | false =>
          simp only [serverSpec, Bool.false_eq_true, if_false]
          exact subset_refl s.present
  | put id product => exact (present_put id product s).ge
  | values =>
      simp only [ServerOp.result] at answered
      split at answered
      next seen =>
        cases answered
        refine Set.union_subset (subset_refl s.present) ?_
        rintro id ⟨product, mem, rfl⟩
        exact sound.past product (seen product mem)
      next => cases answered
  | _ => exact subset_refl s.present

/-- One operation leaves the map and the answers as they should be. -/
theorem Sound.effect (sound : Sound s) (pre : serverSpec.pre op s.present) :
    (∀ id product, (op.effect s).products id = some product → product.id = id) ∧
    (∀ product ∈ (op.effect s).past, product.id ∈ (op.effect s).present) ∧
    ∀ answer ∈ (op.effect s).answers, Answers answer.1 answer.2 := by
  cases op with
  | put id product =>
      refine ⟨fun id' product' stored => ?_, fun product' mem => ?_, sound.answers⟩
      · simp only [ServerOp.effect, Function.update_apply] at stored
        split at stored
        next same =>
          cases stored
          rw [same]
          exact pre
        next => exact sound.stored id' product' stored
      · rw [present_put]
        rcases List.mem_append.mp mem with old | new
        · exact .inr (sound.past product' old)
        · rw [List.mem_singleton.mp new]
          exact .inl pre
  | answer request response =>
      refine ⟨sound.stored, sound.past, fun answer mem => ?_⟩
      rcases List.mem_append.mp mem with old | new
      · exact sound.answers answer old
      · rw [List.mem_singleton.mp new]
        exact pre
  | _ => exact ⟨sound.stored, sound.past, sound.answers⟩

theorem tasks_effect (op : ServerOp) (s : State) : (op.effect s).tasks = s.tasks := by
  cases op <;> rfl

theorem Sound.taskStep {k : ℕ} (sound : Sound s) (moves : s.taskStep k choice = some s') :
    Sound s' := by
  obtain ⟨t, found, moves⟩ := Option.bind_eq_some_iff.mp moves
  have meets := sound.tasks t (List.mem_of_getElem? found)
  cases t with
  | ret a => cases moves
  | call op next =>
      obtain ⟨result, answered, moves⟩ := Option.bind_eq_some_iff.mp moves
      cases moves
      obtain ⟨stored, past, answers⟩ := sound.effect meets.1
      refine ⟨stored, past, fun u mem => ?_, answers⟩
      dsimp only at mem
      rw [tasks_effect] at mem
      rcases List.mem_or_eq_of_mem_set mem with old | rfl
      · exact meets_of_subset (present_effect op s) (sound.tasks u old)
      · exact meets_of_subset (sound.learns answered) (meets.2 result (sound.post answered))

theorem Sound.step {a : Action} (sound : Sound s) (moves : step a s = some s') : Sound s' := by
  cases a with
  | launch kind =>
      cases moves
      refine ⟨sound.stored, sound.past, fun t mem => ?_, sound.answers⟩
      rcases List.mem_append.mp mem with old | new
      · exact sound.tasks t old
      · rw [List.mem_singleton.mp new]
        exact served_meets kind _
  | task k choice => exact sound.taskStep moves

/-- The task is at the invariant error of the server, or at an exception of the client. -/
def Throws (t : Server Unit) : Prop :=
  (∃ request next, t = .call (.invariantError request) next) ∨ ∃ next, t = .call .fail next

/-- However the handlers are interleaved, a request for a product is answered with the product, and
nothing is ever thrown. -/
theorem getProduct_answered (reachable : Reachable step {} s) :
    (∀ id response, (.getProduct id, response) ∈ s.answers →
      response.status = .OK ∧ ∃ product, response.body = .product product ∧ product.id = id) ∧
    ∀ t ∈ s.tasks, ¬ Throws t := by
  have sound : Sound s := reachable.invariant Sound.start fun _ _ _ sound moves => sound.step moves
  refine ⟨fun id response mem => sound.answers _ mem id rfl, fun t mem throws => ?_⟩
  have meets := sound.tasks t mem
  rcases throws with ⟨request, next, rfl⟩ | ⟨next, rfl⟩
  · exact meets.1
  · exact meets.1

/-- A mixed workload creates the product `a`, and then a read workload fetches it. -/
def twoWorkloads : List Action :=
  .launch .mixed :: List.replicate 12 (.task 0 { uuid := "a" }) ++
    .launch .read :: List.replicate 6 (.task 1 { products := [⟨"a", "Product a"⟩] })

theorem getProduct_answered_twoWorkloads :
    ∃ s, run step twoWorkloads {} = some s ∧
      (∀ id response, (.getProduct id, response) ∈ s.answers →
        response.status = .OK ∧ ∃ product, response.body = .product product ∧ product.id = id) ∧
      ∀ t ∈ s.tasks, ¬ Throws t := by
  obtain ⟨s, leads⟩ := Option.isSome_iff_exists.mp (show (run step twoWorkloads {}).isSome by rfl)
  exact ⟨s, leads, getProduct_answered ⟨twoWorkloads, leads⟩⟩

example : (run step twoWorkloads {}).map (fun s => s.answers.map fun a => (a.1.path, a.2.status)) =
    some [(none, .OK), (none, .CREATED), (some "a", .OK), (none, .OK), (some "a", .OK)] := by
  rfl

end Renaissance.Http4k.Server
