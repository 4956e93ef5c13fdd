import Plur1bus.Net.Address

/-!
The addresses of the web tools, and the guard that hands out the one address a connection uses.
-/

namespace Plur1bus.Net.Web

open Program

def cut (head : List Char) : List Char := if [':', ':'].isSuffixOf head then head else head.dropLast

def toBytes (groups : List ℕ) : Option (List ℕ) := if groups.length ≠ 8 then none else some (v6Bytes groups)

def parseV6 (s : List Char) : Option (List ℕ) := parseV6With cut toBytes s

def parseAddress (input : List Char) (strict : Bool) : Option ParsedAddress :=
  let s := trimmed input
  let s := if bracketed s then inner s else s
  if s = [] then none
  else if ':' ∈ s then (parseV6 s).map (⟨.v6, ·⟩)
  else (parseV4 s strict).map (⟨.v4, ·⟩)

def parseCidr (input : List Char) : Option Cidr := parseCidrWith parseAddress input

def v4Table : List (String × String) :=
  [("0.0.0.0/8", "unspecified"), ("10.0.0.0/8", "private"), ("100.64.0.0/10", "shared-address-space"),
    ("127.0.0.0/8", "loopback"), ("169.254.0.0/16", "link-local"), ("168.63.129.16/32", "cloud-metadata"),
    ("172.16.0.0/12", "private"), ("192.0.0.0/24", "reserved"), ("192.0.2.0/24", "reserved"),
    ("192.88.99.0/24", "reserved"), ("192.168.0.0/16", "private"), ("198.18.0.0/15", "reserved"),
    ("198.51.100.0/24", "reserved"), ("203.0.113.0/24", "reserved"), ("224.0.0.0/4", "multicast"),
    ("240.0.0.0/4", "reserved")]

def v6Table : List (String × String) :=
  [("::/128", "unspecified"), ("::1/128", "loopback"), ("::/96", "reserved"), ("64:ff9b:1::/48", "reserved"),
    ("100::/64", "reserved"), ("2001::/23", "reserved"), ("2001:db8::/32", "reserved"), ("3fff::/20", "reserved"),
    ("fc00::/7", "private"), ("fe80::/10", "link-local"), ("fec0::/10", "reserved"), ("ff00::/8", "multicast")]

def v4Ranges : List (Cidr × String) := register parseCidr v4Table

def v6Ranges : List (Cidr × String) := register parseCidr v6Table

def classifyV4 (bytes : List ℕ) : Verdict := classifyV4With v4Ranges bytes

def classifyAddress (input : ParsedAddress) : Verdict := classifyAddressWith v4Ranges v6Ranges input

end Plur1bus.Net.Web
