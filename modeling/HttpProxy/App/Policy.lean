import HttpProxy.Bytes.Basic

/-!
# `SrsPolicy`: which destinations are blocked and which are not decrypted

`src/app/srs_app_policy.cpp`, lines 103-139.  An entry of a list matches a domain
when it occurs anywhere in it.
-/

namespace HttpProxy

/-- The policy. -/
structure SrsPolicy where
  blackListVec : List Bytes
  tunnelDomainVec : List Bytes
  httpsDescryptEnable : Bool
  deriving DecidableEq, Repr

namespace SrsPolicy

/-- The loop of the two functions: does an entry occur in the text? -/
def matchList (entries : List Bytes) (url : Bytes) : Bool :=
  entries.any fun entry => (findSub entry url).isSome

/-- `match_black_list`. -/
def matchBlackList (p : SrsPolicy) (url : Bytes) : Bool := matchList p.blackListVec url

/-- `match_tunnel_domain_list`. -/
def matchTunnelDomainList (p : SrsPolicy) (url : Bytes) : Bool := matchList p.tunnelDomainVec url

/-- `is_https_descrypt_enable`. -/
def isHttpsDescryptEnable (p : SrsPolicy) : Bool := p.httpsDescryptEnable

end SrsPolicy

end HttpProxy
