import RemoteTables.Github.Tables
import RemoteTables.Http.Endpoint
import RemoteTables.Http.Header

/-!
# Access to GitHub

Whoever reads the tables has a token and knows where the server is; everything else can be left to
the settings. All of it is read from an environment, the token first, because without a token there
is nothing to be set.

Connecting sends nothing. It checks that the token can go into a header and that the address is one
that paths can be added to, and from there on the only failures are those of requests. The token
goes into the header and nowhere else: a description of the access shows three stars in its place.
-/

set_option autoImplicit false

namespace RemoteTables
namespace Github

/-- What it takes to reach the server. -/
structure Access where
  token : String
  /-- The address below which all resources are. -/
  apiUrl : String
  settings : Settings
  deriving DecidableEq

/-- A server that can be asked, and the tables that are read from it. -/
structure Connection where
  endpoint : Endpoint
  /-- What goes along with every request. -/
  headers : List Header
  connector : Connector Request Reply

namespace Access

/-- The address of the server that everyone can reach. -/
def publicUrl : String := "https://api.github.com"

/-- The token in an environment; one that is all blanks is as good as none. -/
def readToken (env : Environment) : Except SettingsFault String :=
  match env "GITHUB_TOKEN" with
  | none => .error .tokenNotSet
  | some token => if (Text.trim token.toList).isEmpty then .error .tokenEmpty else .ok token

/-- The access that an environment gives. -/
def read (env : Environment) : Except SettingsFault Access := do
  let token ← readToken env
  return ⟨token, (env "GITHUB_API_URL").getD publicUrl, ← Settings.read env⟩

/-- The access in messages, which do not give the token away. -/
def describe (a : Access) : String :=
  Text.record "GithubConfig"
    [("token", Text.quoted "***"), ("api_url", Text.quoted a.apiUrl), ("rest", a.settings.describe)]

/-- What goes along with every request: the token, and who is asking for what. -/
def headers (a : Access) : Except Failure (List Header) :=
  match Header.of? "authorization" ("Bearer " ++ a.token) with
  | none => .error (.config "GitHub token is not a valid header value")
  | some authorization =>
    .ok [authorization,
      ⟨"accept", "application/vnd.github+json"⟩,
      ⟨"user-agent", "tabrest/0.1.0"⟩,
      ⟨"x-github-api-version", "2022-11-28"⟩]

/-- A connection to the server, under what names outside ASCII stand for. -/
def connect (forms : DomainName.Forms) (a : Access) : Except Failure Connection := do
  let headers ← a.headers
  let endpoint ← Endpoint.ofText forms a.apiUrl
  return ⟨endpoint, headers, Github.connector a.settings⟩

end Access
end Github
end RemoteTables
