import ThetaDirectory.Text

/-!
# Redirects

`utils/fetch_with_auth_redirect.js`.  The requests carry a bearer token, so a redirect is followed
only where it stays on the host.
-/

namespace ThetaDirectory.Forwarding

universe u v

/-- The class `URL`. -/
structure Urls (υ : Type u) where
  /-- `new URL(url)` -/
  parse : String → Option υ
  /-- `new URL(location, url)` -/
  resolve : String → String → Option υ
  href : υ → String
  host : υ → String

/-- A URL reads as itself. -/
def Urls.Lawful {υ : Type u} (urls : Urls υ) : Prop := ∀ url, urls.parse (urls.href url) = some url

structure Response where
  status : Nat
  location : Option String
  deriving DecidableEq, Repr

def REDIRECT_CODES : List Nat := [301, 302, 307, 308]

def MAX_REDIRECTS : Nat := 3

inductive Failure where
  | rejected
  | noLocation (status : Nat)
  | tooManyRedirects
  | invalidUrl
  | crossHost (original next : String)
  deriving DecidableEq, Repr

/-- The requests that were made, and the response or what was thrown. -/
structure Fetched (ι : Type v) where
  requests : List (String × ι)
  result : Except Failure Response

variable {υ : Type u} {ι : Type v} {urls : Urls υ} {fetch : Nat → String → ι → Option Response}
  {init : ι} {depth : Nat} {url : String}

/-- Where a redirect leads. -/
def nextUrl (urls : Urls υ) (url location : String) : Except Failure String :=
  match urls.resolve location url, urls.parse url with
  | some next, some original =>
      if toLowerCase (urls.host next) = toLowerCase (urls.host original) then .ok (urls.href next)
      else .error (.crossHost (urls.host original) (urls.host next))
  | _, _ => .error .invalidUrl

/-- The loop, with the redirects that may still be followed. -/
def follow (urls : Urls υ) (fetch : Nat → String → ι → Option Response) (init : ι) :
    Nat → Nat → String → Fetched ι
  | left, depth, url =>
      match fetch depth url init with
      | none => ⟨[(url, init)], .error .rejected⟩
      | some resp =>
          if resp.status ∉ REDIRECT_CODES then ⟨[(url, init)], .ok resp⟩
          else
            match truthy resp.location, left with
            | none, _ => ⟨[(url, init)], .error (.noLocation resp.status)⟩
            | some _, 0 => ⟨[(url, init)], .error .tooManyRedirects⟩
            | some location, left + 1 =>
                match nextUrl urls url location with
                | .ok next =>
                    let rest := follow urls fetch init left (depth + 1) next
                    ⟨(url, init) :: rest.requests, rest.result⟩
                | .error failure => ⟨[(url, init)], .error failure⟩

/-- `fetchWithAuthRedirect`, where `fetch` answers each attempt. -/
def fetchWithAuthRedirect (urls : Urls υ) (fetch : Nat → String → ι → Option Response)
    (url : String) (init : ι) : Fetched ι :=
  follow urls fetch init MAX_REDIRECTS 0 url

/-- The URL is on the host. -/
def Urls.On (urls : Urls υ) (host : String) (url : String) : Prop :=
  ∃ parsed, urls.parse url = some parsed ∧ toLowerCase (urls.host parsed) = host

/-- The same request, to URLs of one host, until one is answered. -/
structure Confined (urls : Urls υ) (fetch : Nat → String → ι → Option Response) (init : ι)
    (url : String) (left : Nat) (fetched : Fetched ι) : Prop where
  first : ∃ rest, fetched.requests = (url, init) :: rest
  bounded : fetched.requests.length ≤ left + 1
  same : ∀ request ∈ fetched.requests, request.2 = init
  host : ∀ request ∈ fetched.requests, request.1 = url ∨
    ∃ host, urls.On host url ∧ urls.On host request.1
  answered : ∀ resp, fetched.result = .ok resp → resp.status ∉ REDIRECT_CODES ∧
    ∃ last ∈ fetched.requests.getLast?, ∃ attempt, fetch attempt last.1 last.2 = some resp

theorem confined_one {left : Nat} {result : Except Failure Response}
    (answered : ∀ resp, result = .ok resp → resp.status ∉ REDIRECT_CODES ∧
      ∃ attempt, fetch attempt url init = some resp) :
    Confined urls fetch init url left ⟨[(url, init)], result⟩ where
  first := ⟨[], rfl⟩
  bounded := Nat.le_add_left 1 left
  same request listed := by rw [List.mem_singleton.mp listed]
  host request listed := Or.inl (by rw [List.mem_singleton.mp listed])
  answered resp ok := (answered resp ok).imp_right fun found => ⟨_, rfl, found⟩

theorem confined_error {left : Nat} {failure : Failure} :
    Confined urls fetch init url left ⟨[(url, init)], .error failure⟩ :=
  confined_one (by rintro resp ⟨⟩)

theorem on_nextUrl (lawful : urls.Lawful) {location next : String}
    (leads : nextUrl urls url location = .ok next) :
    ∃ host, urls.On host url ∧ urls.On host next := by
  unfold nextUrl at leads
  split at leads
  · rename_i resolved original _ parsed
    split at leads
    · rename_i same
      cases leads
      exact ⟨_, ⟨original, parsed, rfl⟩, resolved, lawful resolved, same⟩
    · cases leads
  · cases leads

theorem on_unique {host other : String} (on : urls.On host url) (also : urls.On other url) :
    host = other := by
  obtain ⟨parsed, found, rfl⟩ := on
  obtain ⟨again, there, rfl⟩ := also
  rw [found] at there
  cases there
  rfl

theorem Confined.cons {left : Nat} {next : String} {fetched : Fetched ι}
    (rest : Confined urls fetch init next left fetched)
    (leads : ∃ host, urls.On host url ∧ urls.On host next) :
    Confined urls fetch init url (left + 1) ⟨(url, init) :: fetched.requests, fetched.result⟩ where
  first := ⟨fetched.requests, rfl⟩
  bounded := Nat.succ_le_succ rest.bounded
  same := List.forall_mem_cons.mpr ⟨rfl, rest.same⟩
  host := by
    refine List.forall_mem_cons.mpr ⟨Or.inl rfl, fun request listed => Or.inr ?_⟩
    obtain ⟨host, on, also⟩ := leads
    rcases rest.host request listed with same | ⟨other, there, here⟩
    · exact ⟨host, on, same ▸ also⟩
    · exact ⟨host, on, on_unique also there ▸ here⟩
  answered resp ok := by
    obtain ⟨final, last, listed, found⟩ := rest.answered resp ok
    obtain ⟨others, shape⟩ := rest.first
    refine ⟨final, last, ?_, found⟩
    rw [shape] at listed ⊢
    exact listed

theorem confined_follow (lawful : urls.Lawful) (left depth : Nat) (url : String) :
    Confined urls fetch init url left (follow urls fetch init left depth url) := by
  induction left generalizing depth url with
  | zero =>
      rw [follow]
      split
      · exact confined_error
      · rename_i resp answer
        split
        · rename_i final
          apply confined_one
          rintro other ⟨⟩
          exact ⟨final, depth, answer⟩
        · split
          · exact confined_error
          · exact confined_error
          · contradiction
  | succ left ih =>
      rw [follow]
      split
      · exact confined_error
      · rename_i resp answer
        split
        · rename_i final
          apply confined_one
          rintro other ⟨⟩
          exact ⟨final, depth, answer⟩
        · split
          · exact confined_error
          · contradiction
          · rename_i equal
            cases equal
            split
            · rename_i next leads
              exact (ih (depth + 1) next).cons (on_nextUrl lawful leads)
            · exact confined_error

/-- Absolute URLs without anything to normalise. -/
private def absolute : Urls String where
  parse := some
  resolve := fun location _ => some location
  href := id
  host := fun url => ((splitAt '/' url)[2]?).getD ""

/-- A proxy that upgrades the scheme. -/
private def upgrades : Nat → String → String → Option Response := fun _ url _ =>
  if url = "http://hub.example/api" then some ⟨301, some "https://hub.example/api"⟩
  else some ⟨200, none⟩

end ThetaDirectory.Forwarding
