import Mathlib.Data.Fin.Tuple.Basic
import Mux.Http.Request

/-!
# Apps and routers

A `Router` points to an `App` and registers routes with it. Every fluent member
returns `std::move(*this)`; the class declares a destructor, so that it has no
move constructor, and what the caller gets is a copy. The Router a member was
called on stays as it was.
-/

namespace Mux.Http

variable {Handler Middleware : Type}

structure Route (Handler : Type) where
  path : Str
  method : Str
  handler : Handler

structure App (Handler : Type) where
  routes_ : List (Route Handler) := []

namespace App

def addHandler (app : App Handler) (route : Route Handler) : App Handler :=
  { app with routes_ := app.routes_ ++ [route] }

/-- The line of one route. -/
def routeLine (route : Route Handler) : Str := route.method ++ " ".toList ++ route.path ++ ['\n']

def printAllRoutes (app : App Handler) : Str := app.routes_.flatMap routeLine

end App

/-- The Apps of a program, each under its address. -/
abbrev Apps (Handler : Type) := Nat → App Handler

structure Router (Middleware : Type) where
  /-- The address of an App, or a null pointer. -/
  app_ : Option Nat
  basePath_ : Str
  middlewares_ : List Middleware := []

namespace Router

/-- The constructor. -/
def new (app : Option Nat) (basePath : Str) : Router Middleware :=
  { app_ := app, basePath_ := basePath }

/-- What `return std::move(*this)` leaves in the returned object and in `*this`: the copy
constructor is the only one there is. -/
def moved (this : Router Middleware) : Router Middleware × Router Middleware := (this, this)

def createNewRoute (this : Router Middleware) (apps : Apps Handler) (path method : Str)
    (handler : Handler) : Except Exception (Apps Handler) :=
  match this.app_ with
  | none => .error (.runtime_error "App is not initialized.")
  | some app_ =>
      let route : Route Handler := { path := this.basePath_ ++ path, method, handler }
      .ok (Function.update apps app_ ((apps app_).addHandler route))

/-- What a member leaves: the returned Router, `*this`, and the Apps. -/
structure Returned (Handler Middleware : Type) where
  result : Router Middleware
  this : Router Middleware
  apps : Apps Handler

/-- The seven verb members differ in the name of the method only. -/
def verb (method : Str) (this : Router Middleware) (apps : Apps Handler) (path : Str)
    (handler : Handler) : Except Exception (Returned Handler Middleware) := do
  let apps ← this.createNewRoute apps path method handler
  .ok ⟨this.moved.1, this.moved.2, apps⟩

def Get (this : Router Middleware) (apps : Apps Handler) (path : Str) (handler : Handler) :
    Except Exception (Returned Handler Middleware) := this.verb "GET".toList apps path handler

def Post (this : Router Middleware) (apps : Apps Handler) (path : Str) (handler : Handler) :
    Except Exception (Returned Handler Middleware) := this.verb "POST".toList apps path handler

def Put (this : Router Middleware) (apps : Apps Handler) (path : Str) (handler : Handler) :
    Except Exception (Returned Handler Middleware) := this.verb "PUT".toList apps path handler

def Delete (this : Router Middleware) (apps : Apps Handler) (path : Str) (handler : Handler) :
    Except Exception (Returned Handler Middleware) := this.verb "DELETE".toList apps path handler

def Options (this : Router Middleware) (apps : Apps Handler) (path : Str) (handler : Handler) :
    Except Exception (Returned Handler Middleware) := this.verb "OPTIONS".toList apps path handler

def Patch (this : Router Middleware) (apps : Apps Handler) (path : Str) (handler : Handler) :
    Except Exception (Returned Handler Middleware) := this.verb "PATCH".toList apps path handler

def Head (this : Router Middleware) (apps : Apps Handler) (path : Str) (handler : Handler) :
    Except Exception (Returned Handler Middleware) := this.verb "HEAD".toList apps path handler

def Use (this : Router Middleware) (handler : Middleware) : Router Middleware × Router Middleware :=
  moved { this with middlewares_ := this.middlewares_ ++ [handler] }

/-- The Router of a group starts without the middlewares of its parent. What `Use` returns
is dropped. -/
def Group (this : Router Middleware) (path : Str) (handler : Option Middleware) :
    Router Middleware :=
  let subRouter : Router Middleware := new this.app_ (this.basePath_ ++ path)
  match handler with
  | none => subRouter
  | some handler => (subRouter.Use handler).2

/-- Only prints that it is not implemented. -/
def WebSocket (this : Router Middleware) : Router Middleware × Router Middleware := this.moved

end Router

/-! ## Routing programs -/

inductive Verb where
  | get
  | post
  | put
  | delete
  | options
  | patch
  | head
  deriving DecidableEq, Repr

/-- The name of a method in a request line. -/
def Verb.method : Verb → Str
  | get => "GET".toList
  | post => "POST".toList
  | put => "PUT".toList
  | delete => "DELETE".toList
  | options => "OPTIONS".toList
  | patch => "PATCH".toList
  | head => "HEAD".toList

/-- A member call on a Router. -/
inductive Router.Call (Handler Middleware : Type) where
  | verb (v : Verb) (path : Str) (handler : Handler)
  | use (handler : Middleware)
  | webSocket (path : Str) (handler : Handler)
  | group (path : Str) (handler : Option Middleware)

/-- A program over `n` Routers. Each call is on one of the Routers there are, as a variable
or as the result of an earlier call, and makes one more. -/
inductive RoutingProgram (Handler Middleware : Type) : Nat → Type where
  | done {n : Nat} : RoutingProgram Handler Middleware n
  | call {n : Nat} (receiver : Fin n) (c : Router.Call Handler Middleware)
      (rest : RoutingProgram Handler Middleware (n + 1)) : RoutingProgram Handler Middleware n

namespace Router

def invoke (this : Router Middleware) (apps : Apps Handler) :
    Call Handler Middleware → Except Exception (Returned Handler Middleware)
  | .verb .get path handler => this.Get apps path handler
  | .verb .post path handler => this.Post apps path handler
  | .verb .put path handler => this.Put apps path handler
  | .verb .delete path handler => this.Delete apps path handler
  | .verb .options path handler => this.Options apps path handler
  | .verb .patch path handler => this.Patch apps path handler
  | .verb .head path handler => this.Head apps path handler
  | .use handler => .ok ⟨(this.Use handler).1, (this.Use handler).2, apps⟩
  | .webSocket _ _ => .ok ⟨this.WebSocket.1, this.WebSocket.2, apps⟩
  | .group path handler => .ok ⟨this.Group path handler, this, apps⟩

end Router

namespace RoutingProgram

/-- Execute a program; the result of each call becomes the newest Router. -/
def exec {n : Nat} (routers : Fin n → Router Middleware) (apps : Apps Handler) :
    RoutingProgram Handler Middleware n → Except Exception (Apps Handler)
  | done => .ok apps
  | call receiver c rest => do
      let returned ← (routers receiver).invoke apps c
      rest.exec (Fin.snoc (α := fun _ => Router Middleware)
        (Function.update routers receiver returned.this) returned.result) returned.apps

end RoutingProgram

/-! ## What a program registers -/

/-- Where a Router stands: the base path it was built with, and the prefixes of the groups
around it, outermost first. -/
structure Place where
  base : Str
  groups : List Str := []

namespace Place

def path (p : Place) : Str := p.base ++ p.groups.flatten

/-- Where the result of a call stands. -/
def after (p : Place) : Router.Call Handler Middleware → Place
  | .group path _ => { p with groups := p.groups ++ [path] }
  | _ => p

/-- The route that a call registers. -/
def routes (p : Place) : Router.Call Handler Middleware → List (Route Handler)
  | .verb v path handler => [{ path := p.path ++ path, method := v.method, handler }]
  | _ => []

/-- The line that a call adds to the list of the routes: method, blank, path. -/
def line (p : Place) : Router.Call Handler Middleware → Str
  | .verb v path _ => v.method ++ ' ' :: (p.path ++ path ++ ['\n'])
  | _ => []

end Place

namespace RoutingProgram

/-- One entry for each verb call, in call order. -/
def routes {n : Nat} (places : Fin n → Place) :
    RoutingProgram Handler Middleware n → List (Route Handler)
  | done => []
  | call receiver c rest =>
      (places receiver).routes c ++
        rest.routes (Fin.snoc (α := fun _ => Place) places ((places receiver).after c))

/-- One line for each verb call, in call order. -/
def lines {n : Nat} (places : Fin n → Place) : RoutingProgram Handler Middleware n → Str
  | done => []
  | call receiver c rest =>
      (places receiver).line c ++
        rest.lines (Fin.snoc (α := fun _ => Place) places ((places receiver).after c))

end RoutingProgram

/-- A Router works for the App under `app` and stands at the place `p`. -/
structure Router.StandsAt (r : Router Middleware) (app : Nat) (p : Place) : Prop where
  app_ : r.app_ = some app
  basePath_ : r.basePath_ = p.path

namespace Router.StandsAt

variable {r : Router Middleware} {app : Nat} {p : Place}

theorem new (app : Nat) (basePath : Str) :
    (Router.new (some app) basePath : Router Middleware).StandsAt app { base := basePath } :=
  ⟨rfl, by simp [Router.new, Place.path]⟩

theorem verb (h : r.StandsAt app p) (method path : Str) (handler : Handler) (apps : Apps Handler) :
    r.verb method apps path handler = .ok ⟨r, r, Function.update apps app
      ((apps app).addHandler { path := p.path ++ path, method, handler })⟩ := by
  simp [Router.verb, Router.createNewRoute, h.app_, h.basePath_, Router.moved]
  rfl

/-- One call: it succeeds, appends the route it stands for to the App, leaves its
receiver in place, and returns a Router that stands where it should. -/
theorem invoke (h : r.StandsAt app p) (apps : Apps Handler) (c : Call Handler Middleware) :
    ∃ returned, r.invoke apps c = .ok returned ∧
      returned.this.StandsAt app p ∧ returned.result.StandsAt app (p.after c) ∧
      returned.apps =
        Function.update apps app { routes_ := (apps app).routes_ ++ p.routes c } := by
  have unchanged : apps =
      Function.update apps app ({ routes_ := (apps app).routes_ ++ [] } : App Handler) := by
    simp
  cases c with
  | verb v path handler =>
      refine ⟨⟨r, r, Function.update apps app
        { routes_ := (apps app).routes_ ++ p.routes (.verb v path handler) }⟩, ?_, h, h, rfl⟩
      cases v <;> exact h.verb _ path handler apps
  | use handler => exact ⟨_, rfl, ⟨h.app_, h.basePath_⟩, ⟨h.app_, h.basePath_⟩, unchanged⟩
  | webSocket path handler => exact ⟨_, rfl, h, h, unchanged⟩
  | group path handler =>
      have base : r.basePath_ ++ path =
          (p.after (.group path handler : Call Handler Middleware)).path := by
        simp [Place.after, Place.path, h.basePath_]
      refine ⟨_, rfl, h, ?_, unchanged⟩
      cases handler with
      | none => exact ⟨h.app_, base⟩
      | some handler => exact ⟨h.app_, base⟩

end Router.StandsAt

namespace RoutingProgram

theorem exec_standing {n : Nat} {routers : Fin n → Router Middleware} {places : Fin n → Place}
    {app : Nat} (standing : ∀ i, (routers i).StandsAt app (places i)) (apps : Apps Handler)
    (p : RoutingProgram Handler Middleware n) :
    p.exec routers apps = .ok
      (Function.update apps app { routes_ := (apps app).routes_ ++ p.routes places }) := by
  induction p generalizing apps with
  | done => simp [exec, routes]
  | call receiver c rest ih =>
      obtain ⟨returned, step, this, result, registered⟩ := (standing receiver).invoke apps c
      have next (i : Fin (_ + 1)) :
          (Fin.snoc (α := fun _ => Router Middleware)
            (Function.update routers receiver returned.this) returned.result i).StandsAt app
          (Fin.snoc (α := fun _ => Place) places ((places receiver).after c) i) := by
        refine Fin.lastCases ?_ (fun i => ?_) i
        · simpa using result
        · by_cases same : i = receiver
          · subst same
            simpa using this
          · simpa [Function.update_of_ne same] using standing i
      rw [exec, step]
      refine (ih next returned.apps).trans ?_
      rw [registered, routes]
      simp

theorem printed_routes (p : Place) (c : Router.Call Handler Middleware) :
    (p.routes c).flatMap App.routeLine = p.line c := by
  cases c with
  | verb v path handler => simp [Place.routes, Place.line, App.routeLine]
  | use handler => rfl
  | webSocket path handler => rfl
  | group path handler => rfl

/-- The lines of the routes of a program are those of its calls. -/
theorem printed_lines {n : Nat} (places : Fin n → Place)
    (p : RoutingProgram Handler Middleware n) :
    (p.routes places).flatMap App.routeLine = p.lines places := by
  induction p with
  | done => rfl
  | call receiver c rest ih => rw [routes, lines, List.flatMap_append, printed_routes, ih]

/-- Every program on Routers that were built for one App ends normally. The routes of the App
are then the ones it had and one for each verb call, in call order, and the text that is printed
has a line for each of them: the method, a blank and the path. -/
theorem exec_routes {n : Nat} (p : RoutingProgram Handler Middleware n) (bases : Fin n → Str)
    (app : Nat) (apps : Apps Handler) :
    ∃ apps', p.exec (fun i => Router.new (some app) (bases i)) apps = .ok apps' ∧
      (apps' app).routes_ =
        (apps app).routes_ ++ p.routes (fun i => { base := bases i }) ∧
      (apps' app).printAllRoutes =
        (apps app).routes_.flatMap (fun route => route.method ++ ' ' :: (route.path ++ ['\n'])) ++
          p.lines (fun i => { base := bases i }) ∧
      ∀ other, other ≠ app → apps' other = apps other := by
  have line : App.routeLine =
      fun route : Route Handler => route.method ++ ' ' :: (route.path ++ ['\n']) := by
    funext route
    simp [App.routeLine]
  refine ⟨_, exec_standing (fun i => Router.StandsAt.new app (bases i)) apps p, ?_, ?_, ?_⟩
  · rw [Function.update_self]
  · rw [Function.update_self, App.printAllRoutes, List.flatMap_append, printed_lines, line]
  · intro other different
    exact Function.update_of_ne different _ _

end RoutingProgram

end Mux.Http
