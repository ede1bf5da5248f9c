import Nlcpp.Deletion

/-!
The members of `RouteSocket` that send a request: what they make of libnl's answer.
-/

namespace Nlcpp.RouteSocket

def NLE_EXIST : ℕ := 6
def NLE_OBJ_NOTFOUND : ℕ := 12
def NLE_NODEV : ℕ := 31

/-- The shape of every member but one: one code says that there was nothing to do. -/
def answer (function : String) (nothing : ℕ) (err : ℤ) : Except Exception Bool :=
  if err = -(nothing : ℤ) then .ok false
  else (Exception.throwCode (function ++ " failed") err).map fun _ => true

/-- `add(const RouteAddress &)`, for the result of `rtnl_addr_add`. -/
def addAddress : ℤ → Except Exception Bool := answer "rtnl_addr_add" NLE_EXIST

/-- `del(const RouteAddress &)`. -/
def delAddress : ℤ → Except Exception Bool := answer "rtnl_addr_delete" NLE_NOADDR

/-- `add(const RouteLink &)`. -/
def addLink : ℤ → Except Exception Bool := answer "rtnl_link_add" NLE_EXIST

/-- `del(const RouteLink &)`. -/
def delLink : ℤ → Except Exception Bool := answer "rtnl_link_delete" NLE_NODEV

/-- `change(const RouteLink &, const RouteLink &)`: no code is taken for an answer. -/
def changeLink (err : ℤ) : Except Exception Bool :=
  (Exception.throwCode "rtnl_link_change failed" err).map fun _ => true

/-- `add(const Route &)`. -/
def addRoute : ℤ → Except Exception Bool := answer "rtnl_route_add" NLE_EXIST

/-- `del(const Route &)`. -/
def delRoute : ℤ → Except Exception Bool := answer "rtnl_route_delete" NLE_OBJ_NOTFOUND

end Nlcpp.RouteSocket
