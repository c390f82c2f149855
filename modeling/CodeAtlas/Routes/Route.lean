import CodeAtlas.Code.Basic
import CodeAtlas.Naming.Plural

namespace CodeAtlas

namespace Routes

inductive Verb where
  | get
  | post
  | put
  | patch
  | delete
  deriving DecidableEq, Repr

def Verb.name : Verb → String
  | .get => "GET"
  | .post => "POST"
  | .put => "PUT"
  | .patch => "PATCH"
  | .delete => "DELETE"

structure Route where
  path : String
  verb : Verb
  controller : String
  action : String
  name : Option String := none
  location : Location
  deriving DecidableEq, Repr

def actionKey (controller action : String) : String := controller ++ "#" ++ action

def Route.key (r : Route) : String := actionKey r.controller r.action

def controllerFor (path : String) : String := Naming.camelize path ++ "Controller"

end Routes

abbrev Routes := OrderedMap String Routes.Route

namespace Routes

def add (routes : Routes) (r : Route) : Routes := routes.insert r.key r

def route? (routes : Routes) (controller action : String) : Option Route :=
  routes.get? (actionKey controller action)

def ofController (routes : Routes) (controller : String) : List Route :=
  routes.values.filter fun r => r.controller == controller

end Routes

end CodeAtlas
